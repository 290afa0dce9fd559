import WasiLibc.Lib.Twin
import WasiLibc.Poll.Preview2
import WasiLibc.Poll.Preview3
import WasiLibc.Poll.Rules

/-!
# WasiLibc.Poll.Walk

One walk through `ppoll_impl` of wasip3, for any relation of two runs, and
one through the end of the wait of wasip2.

`Closed` says what the relation has to allow: the steps of the objects and the
host, the registrations, and the reports of an entry.  Whatever is proved of a
whole call, as an invariant of one run or of two runs side by side, then needs
these few facts only.
-/

namespace WasiLibc.Poll

open Wp Twin

/-! ## Masks -/

variable {a : Events}

/-- An event other than `POLLPRI` is not affected by it. -/
theorem has_strip {m : Events} (hm : strip m = m) : (strip a).Has m ↔ a.Has m := by
  unfold Events.Has strip at *
  rw [BitVec.and_assoc, BitVec.and_comm (~~~POLLPRI) m, hm]

theorem has_congr {b m : Events} (hm : strip m = m) (h : strip a = strip b) :
    a.Has m ↔ b.Has m := by
  rw [← has_strip hm, h, has_strip hm]

theorem strip_rdnorm : strip POLLRDNORM = POLLRDNORM := by simp [strip, POLLRDNORM, POLLPRI]

theorem strip_wrnorm : strip POLLWRNORM = POLLWRNORM := by simp [strip, POLLWRNORM, POLLPRI]

theorem strip_or {b : Events} (ha : strip a = a) (hb : strip b = b) :
    strip (a ||| b) = a ||| b := by
  unfold strip at *
  ext i hi
  have ha' := congrArg (fun x => x[i]) ha
  have hb' := congrArg (fun x => x[i]) hb
  simp only [BitVec.getElem_and, BitVec.getElem_or] at ha' hb' ⊢
  rw [Bool.and_or_distrib_right, ha', hb']

variable {ρ ω α β : Type}

theorem alike_andThen {R : State ρ ω → State ρ ω → Prop} {f g : M ρ ω (Except Errno α)}
    {k l : α → M ρ ω (Except Errno β)} (hf : Alike R f g) (hk : ∀ a, Alike R (k a) (l a)) :
    Alike R (andThen f k) (andThen g l) := by
  refine .bind hf fun r => ?_
  cases r with
  | error e => exact .pure _
  | ok a => exact hk a

/-! ## The end of the wait of wasip2 -/

namespace Preview2

variable {ok : Fault → Prop} {I : State Reg World → Prop} {K : Reg → Prop}

/-- What is done with the entries of `states` that are ready: the host is asked
about connecting sockets, and events that were asked for are reported. -/
theorem keeps_finishAll (hobject : ∀ o, Keeps ok I (onWorld (object o)))
    (hconnect : ∀ o, Keeps ok I (onWorld (finishConnect o)))
    (hready : ∀ {r e}, K r → Within e r.events → Keeps ok I (ready r.cur e))
    (hregs : ∀ s, I s → ∀ r ∈ s.regs, K r)
    (helapsed : ∀ s n, I s → I { s with elapsed := n })
    (timer : Option (BitVec 64)) (indices : List Nat) :
    Keeps ok I (finishAll timer indices) := by
  have hfinish : ∀ r, K r → Keeps ok I (finish r) := by
    intro r hr
    have hall := hready hr .rfl
    refine .bind (hobject _) fun obj => ?_
    cases obj with
    | tcp state =>
      cases state with
      | connecting =>
        refine .bind (hconnect _) fun c => ?_
        cases c with
        | ok => exact hready hr (.and .rfl _)
        | wouldBlock => exact .pure _
        | failed => exact hall
      | listening => exact hready hr (.and .rfl _)
      | _ => exact hall
    | _ => exact hall
  induction indices with
  | nil => exact .pure _
  | cons index rest ih =>
    refine .get fun s h => ?_
    cases hr : s.regs[index]? with
    | none => exact .bind (.modify fun s h => helapsed s _ h) fun _ => ih
    | some r => exact .bind (hfinish r (hregs s h r (List.mem_of_getElem? hr))) fun _ => ih

end Preview2

namespace Preview3

open WasiLibc.Stream (PollEvents)

/-! ## Objects that report the mask they are given -/

/-- The objects that report the mask they are given. -/
def Object.Raw : Object → Prop
  | .udp .unbound => True
  | .tcp .connectFailed => True
  | _ => False

/-- No descriptor names a raw object. -/
def Calm (table : Nat → Option Nat) (w : World) : Prop :=
  ∀ fd o, table fd = some o → ¬ (w.objects o).Raw

variable {table : Nat → Option Nat} {cur o : Nat} {e e' : Events}

variable {α : Type} {obj : Object} {ev : PollEvents}

/-- Without descriptors there is no raw object. -/
theorem keeps_none (f : W α) : Keeps anyFault (Calm fun _ => none) f := by
  intro w _
  unfold wp
  cases f w with
  | ok p => intro _ _ ho; cases ho
  | error e => trivial

theorem keeps_next : Keeps anyFault (Calm table) next := by
  refine .get fun w _ => ?_
  cases w.script with
  | nil => exact .throw trivial
  | cons a script => exact .bind (.modify fun w h => h) fun _ => .pure _

theorem keeps_setObject (hobj : ¬ obj.Raw) :
    Keeps anyFault (Calm table) (setObject o obj) := by
  refine .modify fun w h fd o' ho' => ?_
  show ¬ (Function.update w.objects o obj o').Raw
  by_cases heq : o' = o
  · subst heq
    rw [Function.update_self]
    exact hobj
  · rw [Function.update_of_ne heq]
    exact h fd o' ho'

theorem not_raw_setHalf {half : Stream.World}
    (h : obj.half ev = some half) (half' : Stream.World) : ¬ (obj.setHalf ev half').Raw := by
  unfold Object.half at h
  split at h <;> first | exact id | cases h

theorem wp_next (w : World) :
    wp anyFault next (fun _ w' => w'.objects = w.objects ∧ w'.timer = w.timer) w := by
  unfold next
  rw [wp_bind, wp_get]
  cases w.script with
  | nil => trivial
  | cons a script => exact ⟨rfl, rfl⟩

theorem keeps_onHalf (ev : PollEvents) (f : Stream.M α) :
    Keeps anyFault (Calm table) (onHalf o ev f) := by
  intro w h
  unfold onHalf
  rw [wp_bind, wp_get, wp_bind]
  refine wp_mono (wp_next w) fun a w' hw' => ?_
  have h' : Calm table w' := fun fd o' ho' => hw'.1 ▸ h fd o' ho'
  cases hhalf : (w.objects o).half ev with
  | none => trivial
  | some half =>
    cases a with
    | stream script =>
      dsimp only
      cases f { half with script := script } with
      | error e => trivial
      | ok r =>
        rw [wp_bind, wp_get, wp_bind, hw'.1]
        exact keeps_setObject (not_raw_setHalf hhalf r.2) w' h'
    | _ => trivial

theorem keeps_openStream
    (hobj : ∀ half, ¬ (obj.setHalf ev half).Raw) :
    Keeps anyFault (Calm table) (openStream o ev obj) := by
  refine .bind keeps_next fun a => ?_
  cases a with
  | opened stream =>
    exact .bind (.require trivial) fun _ => .bind (keeps_setObject (hobj _)) fun _ => .pure _
  | _ => exact .throw trivial

theorem keeps_getStream (ev : PollEvents) : Keeps anyFault (Calm table) (getStream o ev) := by
  refine .bind (.get fun w _ => .pure _) fun obj => ?_
  split
  · exact .ite (fun _ => .pure _) fun _ => keeps_openStream fun _ => id
  · exact .ite (fun _ => .pure _) fun _ => keeps_openStream fun _ => id
  · exact .ite (fun _ => .pure _) fun _ => keeps_openStream fun _ => id
  · exact .ite (fun _ => .pure _) fun _ => keeps_openStream fun _ => id
  · exact .pure _

theorem keeps_acceptStart (turns : Nat) (l : Listening) :
    Keeps anyFault (Calm table) (acceptStart turns l) := by
  induction turns generalizing l with
  | zero => exact .throw trivial
  | succ turns ih =>
    refine .ite (fun _ => .pure _) fun _ => .bind keeps_next fun a => ?_
    cases a with
    | accept status =>
      cases status with
      | blocked => exact .pure _
      | code state count =>
        refine .bind (.require trivial) fun _ => .bind ?_ fun l => ih l
        exact .bind (.require trivial) fun _ => .pure _
    | _ => exact .throw trivial

theorem keeps_recvStart (streams : Streams) :
    Keeps anyFault (Calm table) (recvStart streams) := by
  refine .bind (.require trivial) fun _ => .ite (fun _ => .pure _) fun _ => ?_
  refine .bind keeps_next fun a => ?_
  cases a with
  | receive returned =>
    cases returned with
    | true => exact .pure _
    | false => exact .pure _
  | _ => exact .throw trivial

/-! ## Callbacks report plain masks -/

/-- A mask without `POLLPRI`. -/
def Plain (e : Events) : Prop := strip e = e

theorem plain_mask (ev : PollEvents) : Plain (mask ev) := by
  cases ev with
  | rdnorm => exact strip_rdnorm
  | wrnorm => exact strip_wrnorm

theorem plain_zero : Plain 0 := BitVec.zero_and

/-- A program that ends with a plain mask, if it ends. -/
def GivesPlain (f : W Events) : Prop := ∀ w, wp anyFault f (fun e _ => Plain e) w

namespace GivesPlain

theorem pure {e : Events} (he : Plain e) : GivesPlain (pure e) := fun _ => he

theorem throw (e : Fault) : GivesPlain (throw e) := fun _ => trivial

theorem bind {α : Type} {f : W α} {k : α → W Events} (hk : ∀ a, GivesPlain (k a)) :
    GivesPlain (f >>= k) := by
  intro w
  rw [wp_bind]
  unfold wp
  cases f w with
  | error e => trivial
  | ok p => exact hk p.1 p.2

theorem ite {c : Prop} [Decidable c] {f g : W Events} (hf : GivesPlain f) (hg : GivesPlain g) :
    GivesPlain (if c then f else g) := by
  split
  · exact hf
  · exact hg

end GivesPlain

theorem plain_connectReady (o : Nat) (event : Bool) : GivesPlain (connectReady o event) := by
  refine .bind fun obj => ?_
  split
  · refine .bind fun _ => .bind fun _ => .ite (.bind fun _ => .bind fun ok => ?_) (.pure plain_zero)
    exact .ite (.pure strip_wrnorm) (.pure (strip_or strip_wrnorm strip_rdnorm))
  · exact .throw _

theorem plain_acceptReady (o : Nat) (event : Bool) : GivesPlain (acceptReady o event) := by
  refine .bind fun obj => ?_
  split
  · refine .bind fun _ => .ite (.bind fun a => ?_) (.bind fun _ => .pure plain_zero)
    split
    · exact .bind fun _ => .bind fun _ => .pure strip_rdnorm
    · exact .throw _
  · exact .throw _

theorem plain_udpReady (o : Nat) (event : Bool) (blocking subtask : Streams → Bool)
    (leave finish : Streams → Streams) {e : Events} (he : Plain e) :
    GivesPlain (udpReady o event blocking subtask leave finish e) := by
  refine .bind fun obj => ?_
  split
  · split
    · exact .throw _
    · refine .bind fun _ => .ite (.bind fun _ => .bind fun _ => .pure he) ?_
      exact .bind fun _ => .pure plain_zero
  · exact .throw _

theorem plain_pipeReady (o : Nat) (ev : PollEvents) (event : Bool) :
    GivesPlain (pipeReady o ev event) := by
  refine .bind fun obj => ?_
  split
  · refine .bind fun _ => .pure ?_
    split
    · exact plain_mask ev
    · exact plain_zero
  · exact .throw _

/-- The result of an operation on a stream. -/
theorem wp_onHalf_result {o : Nat} {f : Stream.M α} {A : α → Prop}
    (hf : ∀ w, wp anyFault f (fun a _ => A a) w) (w : World) :
    wp anyFault (onHalf o ev f) (fun a _ => A a) w := by
  unfold onHalf
  rw [wp_bind, wp_get, wp_bind]
  refine wp_mono (wp_next w) fun a w' _ => ?_
  cases (w.objects o).half ev with
  | none => trivial
  | some half =>
    cases a with
    | stream script =>
      have hpost := hf { half with script := script }
      unfold wp at hpost
      dsimp only
      cases hfs : f { half with script := script } with
      | error e => trivial
      | ok r => rw [hfs] at hpost; exact hpost
    | _ => trivial

theorem plain_streamReady (o : Nat) (ev : PollEvents) (event : Bool) :
    GivesPlain (streamReady o ev event) := by
  refine fun w => wp_onHalf_result (fun w => ?_) w
  have hlast : ∀ status w, wp anyFault (do
      if ← Stream.pollReady ev status then return mask ev else return 0 : Stream.M Events)
      (fun e _ => Plain e) w := by
    intro status w
    rw [wp_bind]
    unfold wp
    cases Stream.pollReady ev status w with
    | error e => trivial
    | ok r =>
      obtain ⟨b, w'⟩ := r
      cases b with
      | true => exact plain_mask ev
      | false => exact plain_zero
  cases event with
  | false => exact hlast none w
  | true =>
    rw [if_pos rfl, wp_bind, wp_map]
    unfold wp
    cases takeEvent w with
    | error e => trivial
    | ok r => exact hlast (some r.1) r.2

theorem plain_recvReady (o : Nat) (event : Bool) : GivesPlain (recvReady o event) := by
  have hread : Plain POLLRDNORM := strip_rdnorm
  unfold recvReady
  exact plain_udpReady o event _ _ _ _ hread

theorem plain_sendReady (o : Nat) (event : Bool) : GivesPlain (sendReady o event) := by
  have hwrite : Plain POLLWRNORM := strip_wrnorm
  unfold sendReady
  exact plain_udpReady o event _ _ _ _ hwrite

theorem plain_callback (w : Waitable) (event : Bool) : GivesPlain (callback w event) := by
  unfold callback
  cases w.role with
  | stream ev => exact plain_streamReady w.object ev event
  | connect => exact plain_connectReady w.object event
  | accept => exact plain_acceptReady w.object event
  | recv => exact plain_recvReady w.object event
  | send => exact plain_sendReady w.object event
  | pipe ev => exact plain_pipeReady w.object ev event
/-! ## Registration -/

/-- A relation of two states that the steps of a call keep: `K` are the entries
that may be reported, `E` the masks. -/
structure Closed (table : Nat → Option Nat) (K : Nat → Prop) (E : Events → Prop)
    (R : State Reg World → State Reg World → Prop) : Prop where
  length : ∀ {s t}, R s t → s.fds.length = t.fds.length
  count : ∀ {s t}, R s t → s.count = t.count
  same : ∀ {s t}, R s t → s.regs = t.regs
  host : ∀ {s t}, R s t → s.world = t.world
  calm : ∀ {s t}, R s t → Calm table s.world
  plain : ∀ {e}, Plain e → E e
  ready : ∀ {cur e}, K cur → E e → Alike R (ready cur e) (ready cur e)
  world : ∀ {s t w}, R s t → Calm table w → R { s with world := w } { t with world := w }
  elapsed : ∀ {s t} (n : Nat), R s t → R { s with elapsed := n } { t with elapsed := n }
  regs : ∀ {s t l}, R s t → (∀ r ∈ l, r ∈ s.regs ∨ K r.cur) →
    R { s with regs := l } { t with regs := l }

variable {K : Nat → Prop} {E : Events → Prop} {R : State Reg World → State Reg World → Prop}

section

variable (C : Closed table K E R)

include C

theorem alike_world {α : Type} {f : W α} (hf : Keeps anyFault (Calm table) f) :
    Alike R (onWorld f : M α) (onWorld f) := by
  intro s t h
  have hs := hf s.world (C.calm h)
  unfold twin onWorld
  rw [← C.host h]
  unfold wp at hs
  cases hfs : f s.world with
  | error e => rfl
  | ok p =>
    rw [hfs] at hs
    exact ⟨rfl, C.world h hs⟩

theorem alike_setTimer (timer : Option (BitVec 64)) :
    Alike R (modify fun s => { s with world := { s.world with timer := timer } } : M PUnit)
      (modify fun s => { s with world := { s.world with timer := timer } }) := by
  refine .modify fun s t h => ?_
  rw [← C.host h]
  exact C.world h (C.calm h)

variable (hcur : K cur)

include hcur

theorem alike_readyOk (he : E e) : Alike R
    (do ready cur e; return .ok () : M (Except Errno Unit)) (do ready cur e; return .ok ()) :=
  .bind (C.ready hcur he) fun _ => .pure _

theorem alike_pollAddAnd (w : Waitable) {enter : W PUnit}
    (henter : Keeps anyFault (Calm table) enter) :
    Alike R (pollAddAnd cur w enter) (pollAddAnd cur w enter) := by
  have hadd : Alike R (pollAdd cur w) (pollAdd cur w) := by
    refine .get fun s t h => .ite ?_ (.pure _) (.bind (.modify fun s t h => ?_) fun _ => .pure _)
    · rw [C.length h, C.same h]
    · rw [← C.same h]
      refine C.regs h fun r hr => ?_
      rcases List.mem_append.mp hr with hr | hr
      · exact .inl hr
      · cases List.mem_singleton.mp hr
        exact .inr hcur
  exact alike_andThen hadd fun _ => .bind (alike_world C henter) fun _ => .pure _

theorem alike_streamPoll (ev : PollEvents) :
    Alike R (streamPoll cur o ev) (streamPoll cur o ev) := by
  refine alike_andThen (alike_world C (keeps_onHalf ev _)) fun status => ?_
  cases status with
  | ready => exact alike_readyOk C hcur (C.plain (plain_mask ev))
  | inprogress => exact alike_pollAddAnd C hcur _ (keeps_onHalf ev _)
  | error => exact .pure _

theorem alike_tcpPollRegister (h : strip e = strip e') {state : TcpState}
    (hraw : (Object.tcp state).Raw → E e ∧ e = e') :
    Alike R (tcpPollRegister cur o e state) (tcpPollRegister cur o e' state) := by
  have hread := has_congr strip_rdnorm h
  have hwrite := has_congr strip_wrnorm h
  cases state with
  | connecting subtask polling =>
    refine .ite (has_congr (strip_or strip_rdnorm strip_wrnorm) h) ?_ (.pure _)
    refine .ite Iff.rfl (.pure _) (.ite Iff.rfl (.pure _) ?_)
    exact alike_pollAddAnd C hcur _ (keeps_setObject id)
  | listening l =>
    refine .ite hread (.ite Iff.rfl (.pure _) ?_) (.pure _)
    refine .bind (alike_world C (keeps_acceptStart 2 l)) fun l => ?_
    refine .bind (alike_world C (keeps_setObject id)) fun _ => ?_
    refine .ite Iff.rfl (alike_readyOk C hcur (C.plain strip_rdnorm)) ?_
    exact .bind (.require Iff.rfl _) fun _ => alike_pollAddAnd C hcur _ (keeps_setObject id)
  | connected receive send =>
    refine alike_andThen (.ite hread (alike_streamPoll C hcur _) (.pure _)) fun _ => ?_
    exact .ite hwrite (alike_streamPoll C hcur _) (.pure _)
  | connectFailed =>
    obtain ⟨he, rfl⟩ := hraw trivial
    exact alike_readyOk C hcur he
  | unbound => exact .pure _
  | bound => exact .pure _

theorem alike_udpPollStreams (h : strip e = strip e') {tag : Streams → UdpState}
    (htag : ∀ streams, ¬ (Object.udp (tag streams)).Raw) (streams : Streams) :
    Alike R (udpPollStreams cur o e tag streams) (udpPollStreams cur o e' tag streams) := by
  refine alike_andThen (.ite (has_congr strip_rdnorm h) ?_ (.pure _)) fun streams => ?_
  · refine .ite Iff.rfl (.pure _) (.bind (alike_world C (keeps_recvStart streams)) fun streams => ?_)
    refine .bind (alike_world C (keeps_setObject (htag _))) fun _ => ?_
    refine .ite Iff.rfl (.bind (C.ready hcur (C.plain strip_rdnorm)) fun _ => .pure _) ?_
    refine .bind (.require Iff.rfl _) fun _ => alike_andThen ?_ fun _ => .pure _
    exact alike_pollAddAnd C hcur _ (keeps_setObject (htag _))
  · refine .ite (has_congr strip_wrnorm h) (.ite Iff.rfl (.pure _) ?_) (.pure _)
    refine .ite Iff.rfl ?_ (alike_readyOk C hcur (C.plain strip_wrnorm))
    exact alike_pollAddAnd C hcur _ (keeps_setObject (htag _))

theorem alike_udpPollRegister (h : strip e = strip e') {state : UdpState}
    (hraw : (Object.udp state).Raw → E e ∧ e = e') :
    Alike R (udpPollRegister cur o e state) (udpPollRegister cur o e' state) := by
  cases state with
  | unbound =>
    obtain ⟨he, rfl⟩ := hraw trivial
    exact alike_readyOk C hcur he
  | boundNostreams =>
    refine .bind (alike_world C (keeps_setObject id)) fun _ => ?_
    exact alike_udpPollStreams C hcur h (fun _ => id) _
  | boundStreaming streams => exact alike_udpPollStreams C hcur h (fun _ => id) _
  | connected streams => exact alike_udpPollStreams C hcur h (fun _ => id) _

theorem alike_pipePollRegister (h : strip e = strip e') (p : PipeEnd) :
    Alike R (pipePollRegister cur o e p) (pipePollRegister cur o e' p) := by
  have henter : Alike R (pipePollEnter cur o p) (pipePollEnter cur o p) := by
    refine .ite Iff.rfl (.pure _) (.bind (.require Iff.rfl _) fun _ => ?_)
    exact alike_pollAddAnd C hcur _ (keeps_setObject id)
  refine .ite (by rw [has_congr strip_rdnorm h]) ?_ (.ite (by rw [has_congr strip_wrnorm h]) ?_
    (.pure _))
  · exact .ite Iff.rfl (alike_readyOk C hcur (C.plain strip_rdnorm)) henter
  · exact .ite Iff.rfl (alike_readyOk C hcur (C.plain strip_wrnorm)) henter

theorem alike_streamsRegister (h : strip e = strip e') :
    Alike R (streamsRegister cur o e) (streamsRegister cur o e') := by
  have hpoll : ∀ ev, Alike R (getAndPoll cur o ev) (getAndPoll cur o ev) := fun ev =>
    alike_andThen (alike_world C (keeps_getStream ev)) fun _ => alike_streamPoll C hcur ev
  unfold streamsRegister
  rw [h]
  refine .ite Iff.rfl (.pure _) (alike_andThen (.ite Iff.rfl (hpoll _) (.pure _)) fun _ => ?_)
  exact .ite Iff.rfl (hpoll _) (.pure _)

/-- The registrations of an object for masks that differ in `POLLPRI` at most;
a raw object has to be given one mask. -/
theorem alike_objectRegister (h : strip e = strip e') {obj : Object}
    (hraw : obj.Raw → E e ∧ e = e') :
    Alike R (objectRegister cur o e obj) (objectRegister cur o e' obj) := by
  cases obj with
  | tcp state => exact alike_tcpPollRegister C hcur h hraw
  | udp state => exact alike_udpPollRegister C hcur h hraw
  | pipe p => exact alike_pipePollRegister C hcur h p
  | file read write => exact alike_streamsRegister C hcur h
  | stdin input => exact alike_streamsRegister C hcur h
  | stdout output => exact alike_streamsRegister C hcur h
  | other => exact alike_streamsRegister C hcur h

end

/-! ## The wait -/

/-- What `startTimer` does once the clock has been asked for `d`. -/
def awaitTimer (t : Timespec) (d : BitVec 64) : M (Option Timespec) := do
  match ← onWorld next with
  | .waitFor true => do
      modify fun s => { s with elapsed := d.toNat }
      return some .zero
  | .waitFor false => do
      modify fun s => { s with world := { s.world with timer := some d } }
      return some t
  | _ => throw .host

section

variable (C : Closed (fun _ => none) K E R)

include C

theorem alike_awaitTimer (t : Timespec) (d : BitVec 64) :
    Alike R (awaitTimer t d) (awaitTimer t d) := by
  refine .bind (alike_world C (keeps_none _)) fun a => ?_
  split
  · exact .bind (.modify fun _ _ h => C.elapsed _ h) fun _ => .pure _
  · exact .bind (alike_setTimer C _) fun _ => .pure _
  · exact .throw _

theorem alike_waitableSet (blocking : Bool) :
    Alike R (waitableSet blocking) (waitableSet blocking) := by
  refine .get fun s t h => ?_
  rw [C.same h]
  exact alike_world C (keeps_none _)

theorem alike_firstEvent (timeout : Option Timespec) :
    Alike R (firstEvent timeout) (firstEvent timeout) := by
  refine .ite Iff.rfl (alike_waitableSet C true) (.bind (alike_waitableSet C false) fun e => ?_)
  cases e with
  | none => exact alike_waitableSet C false
  | some e => exact .pure _

theorem alike_cleanup (regs : List Reg) : Alike R (cleanup regs) (cleanup regs) := by
  induction regs with
  | nil => exact .modify fun _ _ h => C.regs h nofun
  | cons r rs ih => exact .bind (alike_world C (keeps_none _)) fun _ => ih

theorem alike_deliver {due : List Reg} (hdue : ∀ r ∈ due, K r.cur) :
    Alike R (deliver due) (deliver due) := by
  induction due with
  | nil => exact .pure _
  | cons r rs ih =>
    have hr := hdue r List.mem_cons_self
    refine .bind_of (alike_world C (keeps_none _)) (fun s => ?_) fun e he =>
      .bind (C.ready hr (C.plain he)) fun _ => ih fun r' hr' => hdue r' (List.mem_cons_of_mem r hr')
    exact wp_onWorld.mpr (plain_callback r.waitable true s.world)

variable (hdue : ∀ s t, R s t → ∀ r ∈ s.regs, K r.cur)

include hdue

theorem alike_handle (e : Event) : Alike R (handle e) (handle e) := by
  cases e with
  | timeout =>
    refine .modify fun s t h => ?_
    rw [← C.host h]
    have hworld := C.world (w := { s.world with timer := none }) h nofun
    exact C.elapsed (s.world.timer.getD 0).toNat hworld
  | ready w =>
    refine .get fun s t h => ?_
    rw [← C.same h]
    refine .bind (.modify fun s t h => ?_) fun _ => alike_deliver C fun r hr =>
      hdue s t h r (List.mem_filter.mp hr).1
    rw [← C.same h]
    exact C.regs h fun r hr => .inl (List.mem_filter.mp hr).1

theorem alike_drain (turns : Nat) (e : Option Event) : Alike R (drain turns e) (drain turns e) := by
  induction turns generalizing e with
  | zero =>
    cases e with
    | none => exact .pure _
    | some e => exact .throw _
  | succ turns ih =>
    cases e with
    | none => exact .pure _
    | some e =>
      exact .bind (alike_handle C hdue e) fun _ => .bind (alike_waitableSet C false) fun e => ih e

end

end Preview3

end WasiLibc.Poll

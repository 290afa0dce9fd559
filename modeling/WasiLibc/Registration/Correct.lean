import WasiLibc.DescriptorTable.Slots
import WasiLibc.Lib.Steps
import WasiLibc.Registration.Model

/-!
# WasiLibc.Registration.Correct

What becomes of the owned handles when an object is registered.  The layer
that allocates an object and the one that inserts it release the handle when
they fail, once; whoever calls them must not do it again.
-/

namespace WasiLibc.Registration

open DescriptorTable Errno Function Wp

/-! ## Statements -/

/-- The object that a descriptor names. -/
def State.object (s : State) (fd : Nat) : Option Object :=
  (s.table.table.denotes fd).bind fun e => s.heap e.data

/-- The descriptor owns the handle. -/
def State.Owns (s : State) (fd : Nat) (h : Handle) : Prop :=
  ∃ obj, s.object fd = some obj ∧ h ∈ obj.handles

/-- The handles that are passed in. -/
def Op.handles : Op → List Handle
  | .openat h => [h]
  | .registerPreopen h => [h]
  | .tcpSocket h => [h]
  | .udpSocket h => [h]
  | .accept2 client input output => [input, output, client]
  | .accept3 client => [client]

/-- The streams among the handles come before the socket they belong to. -/
def Op.ChildrenFirst : Op → List Handle → Prop
  | .accept2 client input output, released =>
    [input, client].Sublist released ∧ [output, client].Sublist released
  | _, _ => True

/-- Every handle is released once, or owned by the new descriptor alone. -/
def Settled (s : State) (op : Op) (r : Except Errno Nat) (s' : State) : Prop :=
  match r with
  | .error _ => ∃ released, s'.drops = s.drops ++ released ∧ released.Perm op.handles ∧
      op.ChildrenFirst released ∧ ∀ h ∈ op.handles, ∀ fd, ¬ s'.Owns fd h
  | .ok fd => s'.drops = s.drops ∧ s.object fd = none ∧
      ∀ h ∈ op.handles, ∀ fd', s'.Owns fd' h ↔ fd' = fd

/-- The table is in order: its entries are allocated, and new addresses are
not counted. -/
structure Wf (s : State) : Prop where
  table : s.table.table.Wf
  bound : ∀ fd e, s.table.table.denotes fd = some e → e.data < s.brk ∧ (s.heap e.data).isSome
  fresh : ∀ a, s.brk ≤ a → s.table.objs.cnt a = 0

/-! ## Frames -/

/-- The answers that have been consumed; there is a failure among them if the
call fails. -/
def Uses (s s' : State) (ok : Bool) : Prop :=
  ∃ used, s.answers = used ++ s'.answers ∧ (ok = true ↔ false ∉ used)

/-- From `s` to `s'` new objects have been allocated, and inserted if `P` says
so; old ones are as before. -/
structure Frame (P : Nat → Object → Prop) (s s' : State) : Prop where
  brk : s.brk ≤ s'.brk
  live : s.table.objs.liveDescriptors ≤ s'.table.objs.liveDescriptors
  heap : ∀ a, a < s.brk → s'.heap a = s.heap a
  cnt : ∀ a, a < s.brk → s'.table.objs.cnt a = s.table.objs.cnt a
  keeps : ∀ fd e, s.table.table.denotes fd = some e → s'.table.table.denotes fd = some e
  new : ∀ fd e, s'.table.table.denotes fd = some e → s.table.table.denotes fd = some e ∨
    s.table.table.denotes fd = none ∧ s.brk ≤ e.data ∧
      ∃ obj, s'.heap e.data = some obj ∧ P fd obj

variable {P Q : Nat → Object → Prop} {s s' s₁ s₂ : State} {b : Bool}

theorem Uses.refl (s : State) : Uses s s true := ⟨[], rfl, by simp⟩

theorem Uses.trans (h₁ : Uses s s₁ true) (h₂ : Uses s₁ s₂ b) : Uses s s₂ b := by
  obtain ⟨used, heq, hok⟩ := h₁
  obtain ⟨used', heq', hok'⟩ := h₂
  have hnot := hok.mp rfl
  exact ⟨used ++ used', by rw [heq, heq', List.append_assoc], by simp [hok', hnot]⟩

theorem Uses.congr (h : Uses s s₁ b) (hs : s₂.answers = s₁.answers) : Uses s s₂ b := by
  obtain ⟨used, heq, hok⟩ := h
  exact ⟨used, by rw [hs, heq], hok⟩

theorem Frame.trans (hP : ∀ fd obj, P fd obj → Q fd obj) (h₁ : Frame P s s₁) (hwf : Wf s₁)
    (h₂ : Frame Q s₁ s₂) : Frame Q s s₂ := by
  refine ⟨Nat.le_trans h₁.brk h₂.brk, Nat.le_trans h₁.live h₂.live, ?_, ?_, ?_, ?_⟩
  · intro a ha
    rw [h₂.heap a (Nat.lt_of_lt_of_le ha h₁.brk), h₁.heap a ha]
  · intro a ha
    rw [h₂.cnt a (Nat.lt_of_lt_of_le ha h₁.brk), h₁.cnt a ha]
  · exact fun fd e he => h₂.keeps fd e (h₁.keeps fd e he)
  · intro fd e he
    rcases h₂.new fd e he with he₁ | ⟨hnone, hle, obj, hobj, hQ⟩
    · rcases h₁.new fd e he₁ with he₀ | ⟨hnone, hle, obj, hobj, hp⟩
      · exact .inl he₀
      · exact .inr ⟨hnone, hle, obj, (h₂.heap _ (hwf.bound fd e he₁).1).trans hobj, hP fd obj hp⟩
    · refine .inr ⟨?_, Nat.le_trans h₁.brk hle, obj, hobj, hQ⟩
      by_contra hsome
      obtain ⟨e', he'⟩ := Option.ne_none_iff_exists'.mp hsome
      rw [h₁.keeps fd e' he'] at hnone
      cases hnone

/-- The objects that are added on the way. -/
def IsStdio (_ : Nat) (obj : Object) : Prop := ∃ fd, obj = .stdio fd

/-- The only way for a call to stop is that the allocator answers too often or
not often enough. -/
abbrev hostOnly : Fault → Prop := fun e => e = .host

theorem wp_allocate {R : Bool → State → Prop}
    (h : ∀ answer rest, Uses s { s with answers := rest } answer →
      R answer { s with answers := rest }) :
    wp hostOnly allocate R s := by
  unfold allocate
  rw [wp_bind, wp_get]
  cases hs : s.answers with
  | nil => rfl
  | cons answer rest => exact h answer rest ⟨[answer], by simpa using hs, by cases answer <;> simp⟩

/-- An object has been allocated since `s₀`, with a reference that is not in
the table. -/
structure Pending (s₀ s : State) (data : Nat) (obj : Object) (b : Bool) : Prop where
  wf : Wf s
  uses : Uses s₀ s b
  frame : Frame IsStdio s₀ s
  drops : s.drops = s₀.drops
  ge : s₀.brk ≤ data
  lt : data < s.brk
  heap : s.heap data = some obj
  cnt : s.table.objs.cnt data = 1
  live : s₀.table.objs.liveDescriptors < s.table.objs.liveDescriptors
  out : ∀ fd e, s.table.table.denotes fd = some e → e.data ≠ data

/-- What a call adds: standard input and output perhaps, and the object if it
succeeds. -/
def Adds (obj : Object) (r : Except Errno Nat) (fd : Nat) (o : Object) : Prop :=
  IsStdio fd o ∨ r = .ok fd ∧ o = obj

/-- The handles that are released. -/
def released (obj : Object) : Except Errno Nat → List Handle
  | .ok _ => []
  | .error _ => obj.handles

/-- The object at `data` is in the table, or its handles are released. -/
structure Added (s₀ : State) (obj : Object) (data : Nat) (r : Except Errno Nat) (s : State) :
    Prop where
  wf : Wf s
  uses : Uses s₀ s r.isOk
  frame : Frame (Adds obj r) s₀ s
  drops : s.drops = s₀.drops ++ released obj r
  named : ∀ fd, r = .ok fd → s₀.table.table.denotes fd = none ∧ s₀.brk ≤ data ∧ data < s.brk ∧
    s.heap data = some obj ∧ ∀ fd', (∃ e, s.table.table.denotes fd' = some e ∧ e.data = data) ↔
      fd' = fd

theorem Frame.mono (hP : ∀ fd obj, P fd obj → Q fd obj) (h : Frame P s s') : Frame Q s s' := by
  refine ⟨h.brk, h.live, h.heap, h.cnt, h.keeps, fun fd e he => ?_⟩
  rcases h.new fd e he with h | ⟨hnone, hle, obj, hobj, hp⟩
  · exact .inl h
  · exact .inr ⟨hnone, hle, obj, hobj, hP fd obj hp⟩

variable {s₀ : State} {data vtable : Nat} {obj : Object}

variable {e : Errno} {fd : Nat} {rest : List Bool} {r : Except Errno Nat} {h : Handle} {op : Op}
  {client : Handle}

/-- The last reference is dropped, and the handles are released. -/
theorem Pending.entryDec (h : Pending s₀ s data obj b) (hb : b = false) :
    wp hostOnly (entryDec ⟨data, vtable⟩) (fun _ => Added s₀ obj data (.error e)) s := by
  have hdec : descriptorTableEntryDec s.table.objs ⟨data, vtable⟩ = some {
      cnt := update s.table.objs.cnt data 0
      liveDescriptors := s.table.objs.liveDescriptors - 1
      freed := s.table.objs.freed ++ [⟨data, vtable⟩] } := by
    have hlive := h.live
    simp [descriptorTableEntryDec, wasilibcDescriptorDeallocate, h.cnt, Nat.lt_of_le_of_lt
      (Nat.zero_le _) hlive]
  unfold Registration.entryDec
  rw [wp_bind, wp_get]
  simp only [hdec, wp_bind, wp_modify, update_self]
  rw [if_pos trivial]
  unfold vtableFree
  simp only [wp_bind, wp_get, h.heap, wp_modify]
  have hframe := h.frame
  refine ⟨⟨h.wf.table, ?_, ?_⟩, h.uses.congr rfl |>.imp ?_, ?_, by simp [h.drops, released], by simp⟩
  · intro fd e' he'
    obtain ⟨hlt, hsome⟩ := h.wf.bound fd e' he'
    exact ⟨hlt, by simpa [update_of_ne (h.out fd e' he')] using hsome⟩
  · intro a ha
    have hne : a ≠ data := Ne.symm (Nat.ne_of_lt (Nat.lt_of_lt_of_le h.lt ha))
    simpa [update_of_ne hne] using h.wf.fresh a ha
  · subst hb
    exact fun used h => h
  · refine ⟨hframe.brk, ?_, ?_, ?_, hframe.keeps, ?_⟩
    · have := h.live
      show _ ≤ s.table.objs.liveDescriptors - 1
      omega
    · intro a ha
      have hne : a ≠ data := fun heq => by
        have := h.ge
        omega
      simpa [update_of_ne hne] using hframe.heap a ha
    · intro a ha
      have hne : a ≠ data := fun heq => by
        have := h.ge
        omega
      simpa [update_of_ne hne] using hframe.cnt a ha
    · intro fd e' he'
      rcases hframe.new fd e' he' with hold | ⟨hnone, hle, obj', hobj', hp⟩
      · exact .inl hold
      · refine .inr ⟨hnone, hle, obj', ?_, .inl hp⟩
        simpa [update_of_ne (h.out fd e' he')] using hobj'

theorem tableAllocate_full {t : Table} (h : t.freeFrom t.nextFd = t.len) (e : Entry) :
    tableAllocate t e false = .error ENOMEM := by
  unfold tableAllocate tableGrow
  rw [if_pos h, if_neg (by omega)]
  rfl

/-- The entry is in the table. -/
theorem Pending.occupy (h : Pending s₀ s data obj true) {t : Table} (hwf : t.Wf)
    (hfree : s.table.table.denotes fd = none)
    (ht : t.denotes = update s.table.table.denotes fd (some ⟨data, vtable⟩)) :
    Added s₀ obj data (.ok fd) { s with table.table := t } := by
  have hnone : s₀.table.table.denotes fd = none := by
    by_contra hsome
    obtain ⟨e, he⟩ := Option.ne_none_iff_exists'.mp hsome
    rw [h.frame.keeps fd e he] at hfree
    cases hfree
  have hnew : ∀ fd' e, t.denotes fd' = some e →
      fd' = fd ∧ e.data = data ∨ fd' ≠ fd ∧ s.table.table.denotes fd' = some e := by
    intro fd' e he
    rw [ht] at he
    by_cases hfd : fd' = fd
    · subst hfd
      rw [update_self, Option.some.injEq] at he
      exact .inl ⟨rfl, he ▸ rfl⟩
    · rw [update_of_ne hfd] at he
      exact .inr ⟨hfd, he⟩
  refine ⟨⟨hwf, ?_, h.wf.fresh⟩, h.uses.congr rfl, ?_, by simp [h.drops, released], ?_⟩
  · intro fd' e he
    rcases hnew fd' e he with ⟨-, heq⟩ | ⟨-, hold⟩
    · rw [heq]
      exact ⟨h.lt, by simp [h.heap]⟩
    · exact h.wf.bound fd' e hold
  · refine ⟨h.frame.brk, Nat.le_of_lt h.live, h.frame.heap, h.frame.cnt, ?_, ?_⟩
    · intro fd' e he
      have hne : fd' ≠ fd := fun heq => by rw [heq, hnone] at he; cases he
      show t.denotes fd' = _
      rw [ht, update_of_ne hne]
      exact h.frame.keeps fd' e he
    · intro fd' e he
      rcases hnew fd' e he with ⟨rfl, heq⟩ | ⟨-, hold⟩
      · exact .inr ⟨hnone, heq ▸ h.ge, obj, heq ▸ h.heap, .inr ⟨rfl, rfl⟩⟩
      · rcases h.frame.new fd' e hold with hold | ⟨hnone, hle, obj', hobj', hp⟩
        · exact .inl hold
        · exact .inr ⟨hnone, hle, obj', hobj', .inl hp⟩
  · rintro fd' ⟨⟩
    refine ⟨hnone, h.ge, h.lt, h.heap, fun fd' => ⟨?_, ?_⟩⟩
    · rintro ⟨e, he, heq⟩
      rcases hnew fd' e he with ⟨hfd, -⟩ | ⟨-, hold⟩
      · exact hfd
      · exact absurd heq (h.out fd' e hold)
    · rintro rfl
      exact ⟨⟨data, vtable⟩, by show t.denotes fd' = _; rw [ht, update_self], rfl⟩

/-- Other fields do not matter. -/
theorem Pending.answered (h : Pending s₀ s data obj true) {initialized : Bool}
    (huses : Uses s { s with answers := rest } b) :
    Pending s₀ { s with answers := rest, stdioInitialized := initialized } data obj b :=
  ⟨⟨h.wf.table, h.wf.bound, h.wf.fresh⟩, h.uses.trans (huses.congr rfl),
    ⟨h.frame.brk, h.frame.live, h.frame.heap, h.frame.cnt, h.frame.keeps, h.frame.new⟩, h.drops,
    h.ge, h.lt, h.heap, h.cnt, h.live, h.out⟩

theorem Pending.place (h : Pending s₀ s data obj b)
    (hfull : b = false → s.table.table.freeFrom s.table.table.nextFd = s.table.table.len) :
    wp hostOnly (place ⟨data, vtable⟩ b) (Added s₀ obj data) s := by
  unfold Registration.place
  rw [wp_bind, wp_get]
  cases b with
  | false =>
    rw [tableAllocate_full (hfull rfl)]
    simp only [wp_bind]
    exact h.entryDec rfl
  | true =>
    obtain ⟨fd, t₁, hok, hgrown, hlt, hleast⟩ | ⟨hfalse, -⟩ :=
      tableAllocate_cases h.wf.table ⟨data, vtable⟩ true
    · simp only [hok, wp_bind, wp_modify, wp_pure]
      have ht := Table.denotes_set ⟨true, ⟨data, vtable⟩⟩ (fd + 1) hlt
      rw [hgrown.denotes] at ht
      exact h.occupy (Table.wf_set_least hgrown _ hlt hleast) hleast.1 ht
    · cases hfalse

/-- The entry gets a slot, or its reference is dropped. -/
theorem Pending.insertEntry (h : Pending s₀ s data obj true) :
    wp hostOnly (insertEntry ⟨data, vtable⟩) (Added s₀ obj data) s := by
  unfold Registration.insertEntry
  rw [wp_bind, wp_get, wp_bind, wp_require]
  refine ⟨fun _ => ?_, fun hnot => absurd (by rw [h.cnt]; decide) hnot⟩
  split
  case isTrue hfull =>
    rw [wp_bind]
    exact wp_allocate fun answer rest huses => (h.answered huses).place fun _ => hfull
  case isFalse => exact h.place nofun

/-! ## Standard input and output -/

/-- An object is allocated, or not. -/
theorem wp_calloc {R : Option Nat → State → Prop}
    (hnone : ∀ rest, Uses s { s with answers := rest } false → R none { s with answers := rest })
    (hsome : ∀ rest, Uses s { s with answers := rest } true → R (some s.brk) { s with
      heap := update s.heap s.brk (some obj)
      brk := s.brk + 1
      answers := rest }) :
    wp hostOnly (calloc obj) R s := by
  unfold calloc
  rw [wp_bind]
  refine wp_allocate fun answer rest huses => ?_
  cases answer with
  | false => exact hnone rest huses
  | true => exact hsome rest huses

/-- The new object gets its first reference. -/
theorem wp_firstReference {R : PUnit → State → Prop} (hwf : Wf s)
    (huses : Uses s { s with answers := rest } true)
    (h : ∀ s', Pending s s' s.brk obj true → R ⟨⟩ s') :
    wp hostOnly (firstReference ⟨s.brk, vtable⟩) R { s with
      heap := update s.heap s.brk (some obj)
      brk := s.brk + 1
      answers := rest } := by
  unfold firstReference
  rw [wp_bind, wp_get, wp_bind, wp_require]
  refine ⟨fun _ => ?_, fun hnot => absurd (hwf.fresh _ (Nat.le_refl _)) hnot⟩
  rw [wp_modify]
  have hne : ∀ fd e, s.table.table.denotes fd = some e → e.data ≠ s.brk := fun fd e he =>
    Nat.ne_of_lt (hwf.bound fd e he).1
  refine h _ ⟨⟨hwf.table, ?_, ?_⟩, huses.congr rfl, ⟨Nat.le_succ _, Nat.le_succ _, ?_, ?_, ?_, ?_⟩,
    rfl, Nat.le_refl _, Nat.lt_succ_self _, ?_, ?_, Nat.lt_succ_self _, hne⟩
  · intro fd e he
    obtain ⟨hlt, hsome⟩ := hwf.bound fd e he
    exact ⟨Nat.lt_succ_of_lt hlt, by simpa [update_of_ne (hne fd e he)] using hsome⟩
  · intro a ha
    have hne : a ≠ s.brk := Nat.ne_of_gt ha
    simpa [update_of_ne hne] using hwf.fresh a (Nat.le_of_succ_le ha)
  · intro a ha
    exact update_of_ne (Nat.ne_of_lt ha) _ _
  · intro a ha
    exact update_of_ne (Nat.ne_of_lt ha) _ _
  · exact fun fd e he => he
  · exact fun fd e he => .inl he
  · exact update_self _ _ _
  · exact update_self _ _ _

/-- Nothing but an answer has changed. -/
theorem Wf.added_none (hwf : Wf s) {drops : List Handle}
    (huses : Uses s { s with answers := rest } false) (hdrops : drops = s.drops ++ obj.handles) :
    Added s obj data (.error e) { s with answers := rest, drops := drops } :=
  ⟨⟨hwf.table, hwf.bound, hwf.fresh⟩, huses.congr rfl,
    ⟨Nat.le_refl _, Nat.le_refl _, fun _ _ => rfl, fun _ _ => rfl, fun _ _ h => h,
      fun _ _ h => .inl h⟩, hdrops, nofun⟩

theorem stdioAdd_spec (hwf : Wf s) (fd : Nat) :
    wp hostOnly (stdioAdd fd) (fun r s' => ∃ data, Added s (.stdio fd) data r s') s := by
  unfold stdioAdd
  rw [wp_bind]
  refine wp_calloc (fun rest huses => ?_) fun rest huses => ?_
  · exact ⟨0, hwf.added_none huses (by simp [Object.handles])⟩
  · rw [wp_bind]
    refine wp_firstReference hwf huses fun s' h => ?_
    exact wp_mono h.insertEntry fun r s'' h' => ⟨_, h'⟩

/-- Adding to standard input and output does not touch a reference that is not
in the table. -/
theorem Pending.stdio (h : Pending s₀ s data obj true) {data' : Nat}
    (h' : Added s (.stdio fd) data' r s') : Pending s₀ s' data obj r.isOk := by
  have hframe : Frame IsStdio s s' := h'.frame.mono fun fd' o ho => by
    rcases ho with ho | ⟨-, rfl⟩
    · exact ho
    · exact ⟨fd, rfl⟩
  refine ⟨h'.wf, h.uses.trans h'.uses, .trans (fun _ _ h => h) h.frame h.wf hframe, ?_, h.ge,
    Nat.lt_of_lt_of_le h.lt hframe.brk, ?_, ?_, Nat.lt_of_lt_of_le h.live hframe.live, ?_⟩
  · rw [h'.drops, h.drops]
    cases r <;> simp [released, Object.handles]
  · rw [hframe.heap data h.lt, h.heap]
  · rw [hframe.cnt data h.lt, h.cnt]
  · intro fd' e he
    rcases hframe.new fd' e he with hold | ⟨-, hle, -⟩
    · exact h.out fd' e hold
    · exact Ne.symm (Nat.ne_of_lt (Nat.lt_of_lt_of_le h.lt hle))

theorem Pending.stdioAdd (h : Pending s₀ s data obj true) (fd : Nat)
    {R : Except Errno Nat → State → Prop}
    (hR : ∀ r s', Pending s₀ s' data obj r.isOk → R r s') : wp hostOnly (stdioAdd fd) R s :=
  wp_mono (stdioAdd_spec h.wf fd) fun r s' ⟨_, h'⟩ => hR r s' (h.stdio h')

theorem Pending.initStdio (h : Pending s₀ s data obj true) :
    wp hostOnly initStdio (fun r s' => Pending s₀ s' data obj r.isOk) s := by
  have h₀ : Pending s₀ { s with stdioInitialized := true } data obj true := h.answered (.refl s)
  unfold Registration.initStdio
  rw [wp_bind, wp_modify, wp_bind]
  refine h₀.stdioAdd 0 fun r s₁ h₁ => ?_
  cases r with
  | error e => exact h₁
  | ok _ =>
    simp only [wp_bind]
    refine Pending.stdioAdd h₁ 1 fun r s₂ h₂ => ?_
    cases r with
    | error e => exact h₂
    | ok _ =>
      simp only [wp_bind]
      refine Pending.stdioAdd h₂ 2 fun r s₃ h₃ => ?_
      cases r with
      | error e => exact h₃
      | ok _ => exact h₃

/-! ## New objects -/

/-- A new object is inserted. -/
theorem descriptorTableInsert_spec (hwf : Wf s)
    (huses : Uses s { s with answers := rest } true) :
    wp hostOnly (descriptorTableInsert ⟨s.brk, vtable⟩) (Added s obj s.brk) { s with
      heap := update s.heap s.brk (some obj)
      brk := s.brk + 1
      answers := rest } := by
  unfold descriptorTableInsert
  rw [wp_bind]
  refine wp_firstReference hwf huses fun s₁ h₁ => ?_
  rw [wp_bind, wp_get]
  split
  case isTrue => exact h₁.insertEntry
  case isFalse =>
    rw [wp_bind]
    refine wp_mono h₁.initStdio fun r s₂ h₂ => ?_
    cases r with
    | error e =>
      simp only [wp_bind]
      exact Pending.entryDec h₂ rfl
    | ok _ => exact Pending.insertEntry h₂

/-- The handle of a new object is released by the time that `add` fails. -/
theorem add_spec (hwf : Wf s) (hobj : obj.handles = [h]) :
    wp hostOnly (add obj h) (fun r s' => Added s obj r.2 r.1 s') s := by
  unfold add
  rw [wp_bind]
  refine wp_calloc (fun rest huses => ?_) fun rest huses => ?_
  · simp only [dropOwn, wp_bind, wp_modify, wp_pure]
    exact hwf.added_none huses (by rw [hobj])
  · simp only [wp_bind, wp_pure]
    exact descriptorTableInsert_spec hwf huses

/-! ## Settled handles -/

/-- The new descriptor names `obj`, and what else is new belongs to standard
input and output. -/
def Objects (s s' : State) (r : Except Errno Nat) (obj : Object) : Prop :=
  ∀ fd, (r = .ok fd → s.object fd = none ∧ s'.object fd = some obj) ∧
    (r ≠ .ok fd → s'.object fd = s.object fd ∨ ∃ k, s'.object fd = some (.stdio k))

theorem Added.objects (h : Added s obj data r s') (hwf : Wf s) :
    Objects s s' r obj := by
  intro fd
  constructor
  · rintro rfl
    obtain ⟨hnone, -, -, hheap, hiff⟩ := h.named fd rfl
    obtain ⟨e, he, heq⟩ := (hiff fd).mpr rfl
    exact ⟨by simp [State.object, hnone], by simp [State.object, he, heq, hheap]⟩
  · intro hr
    cases hnew : s'.table.table.denotes fd with
    | none =>
      refine .inl ?_
      cases hold : s.table.table.denotes fd with
      | none => simp [State.object, hnew, hold]
      | some e => exact absurd (hnew.symm.trans (h.frame.keeps fd e hold)) (by simp)
    | some e =>
      rcases h.frame.new fd e hnew with hold | ⟨-, -, o, ho, ⟨k, rfl⟩ | ⟨heq, -⟩⟩
      · exact .inl (by simp [State.object, hnew, hold, h.frame.heap _ (hwf.bound fd e hold).1])
      · exact .inr ⟨k, by simp [State.object, hnew, ho]⟩
      · exact absurd heq hr

/-- The new object is written to. -/
theorem Added.replaced (h : Added s obj data (.ok fd) s') (hwf : Wf s) (obj' : Object)
    {s'' : State} (htable : s''.table.table = s'.table.table)
    (hheap : s''.heap = update s'.heap data (some obj')) :
    Objects s s'' (.ok fd) obj' := by
  obtain ⟨hnone, -, -, -, hiff⟩ := h.named fd rfl
  intro fd'
  constructor
  · rintro ⟨⟩
    obtain ⟨e, he, heq⟩ := (hiff fd).mpr rfl
    exact ⟨by simp [State.object, hnone], by simp [State.object, htable, hheap, he, heq]⟩
  · intro hr
    have hsame : s''.object fd' = s'.object fd' := by
      cases he : s'.table.table.denotes fd' with
      | none => simp [State.object, htable, he]
      | some e =>
        have hne : e.data ≠ data := fun heq => hr (by rw [(hiff fd').mp ⟨e, he, heq⟩])
        simp [State.object, htable, hheap, he, update_of_ne hne]
    rw [hsame]
    exact (h.objects hwf fd').2 hr

/-- The handle is new: no object has it. -/
def Fresh (s : State) (h : Handle) : Prop := ∀ fd, ¬ s.Owns fd h

theorem Objects.owns_iff (h : Objects s s' r obj) {x : Handle}
    (hfresh : Fresh s x) (fd : Nat) : s'.Owns fd x ↔ r = .ok fd ∧ x ∈ obj.handles := by
  by_cases hr : r = .ok fd
  · have hobj := ((h fd).1 hr).2
    simp [State.Owns, hobj, hr]
  · refine iff_of_false ?_ fun h => hr h.1
    rintro ⟨o, ho, hx⟩
    rcases (h fd).2 hr with hsame | ⟨k, hk⟩
    · exact hfresh fd ⟨o, hsame ▸ ho, hx⟩
    · rw [hk] at ho
      cases ho
      simp [Object.handles] at hx

/-- On success the new descriptor owns the handles, and nothing is released. -/
theorem Objects.settled (h : Objects s s' (.ok fd) obj)
    (hfresh : ∀ x ∈ op.handles, Fresh s x) (hobj : ∀ x ∈ op.handles, x ∈ obj.handles)
    (hdrops : s'.drops = s.drops) : Settled s op (.ok fd) s' := by
  refine ⟨hdrops, ((h fd).1 rfl).1, fun x hx fd' => ?_⟩
  rw [h.owns_iff (hfresh x hx)]
  simp [hobj x hx, eq_comm]

/-- On failure the handles are to be released, once. -/
theorem Objects.settled_iff {released : List Handle}
    (h : Objects s s' (.error e) obj) (hfresh : ∀ x ∈ op.handles, Fresh s x)
    (hdrops : s'.drops = s.drops ++ released) :
    Settled s op (.error e) s' ↔ released.Perm op.handles ∧ op.ChildrenFirst released := by
  constructor
  · rintro ⟨released', hdrops', hperm, hfirst, -⟩
    cases List.append_cancel_left (hdrops.symm.trans hdrops')
    exact ⟨hperm, hfirst⟩
  · rintro ⟨hperm, hfirst⟩
    refine ⟨released, hdrops, hperm, hfirst, fun x hx fd => ?_⟩
    rw [h.owns_iff (hfresh x hx)]
    simp

/-- The registrations that leave the release to the layers below. -/
def Op.Careful : Op → Prop
  | .registerPreopen _ | .accept2 _ _ _ => False
  | _ => True

/-- What is to be shown of a call. -/
structure Op.Correct (op : Op) (s : State) (r : Except Errno Nat) (s' : State) : Prop where
  wf : Wf s'
  uses : Uses s s' r.isOk
  settled : Settled s op r s' ↔ op.Careful ∨ r.isOk = true

/-- The invariant does not depend on other fields, nor on what the objects
are. -/
theorem Wf.congr (h : Wf s) (htable : s'.table = s.table) (hbrk : s'.brk = s.brk)
    (hheap : ∀ a, (s.heap a).isSome → (s'.heap a).isSome) : Wf s' := by
  refine ⟨htable ▸ h.table, fun fd e he => ?_, fun a ha => ?_⟩
  · rw [htable] at he
    obtain ⟨hlt, hsome⟩ := h.bound fd e he
    exact ⟨hbrk ▸ hlt, hheap _ hsome⟩
  · rw [htable]
    exact h.fresh a (hbrk ▸ ha)

theorem isSome_update {heap : Nat → Option Object} (data a : Nat) (obj : Object)
    (h : (heap a).isSome) : (update heap data (some obj) a).isSome := by
  by_cases ha : a = data
  · subst ha
    simp
  · rwa [update_of_ne ha]

theorem Added.correct (h : Added s obj data r s') (hwf : Wf s)
    (hfresh : ∀ x ∈ op.handles, Fresh s x) (hobj : obj.handles = op.handles)
    (hcareful : op.Careful) (hfirst : ∀ released, op.ChildrenFirst released) :
    op.Correct s r s' := by
  refine ⟨h.wf, h.uses, iff_of_true ?_ (.inl hcareful)⟩
  have hdrops := h.drops
  cases r with
  | ok fd =>
    exact (h.objects hwf).settled hfresh (fun x hx => hobj ▸ hx)
      (by simpa [released] using hdrops)
  | error e =>
    rw [(h.objects hwf).settled_iff hfresh hdrops]
    exact ⟨by rw [released, hobj], hfirst _⟩

/-! ## The calls -/

theorem correct_add (hwf : Wf s) (hfresh : ∀ x ∈ op.handles, Fresh s x)
    (hobj : obj.handles = [h]) (hop : op.handles = [h]) (hcareful : op.Careful)
    (hfirst : ∀ released, op.ChildrenFirst released) :
    wp hostOnly (do return (← add obj h).1) (op.Correct s) s := by
  rw [wp_bind]
  exact wp_mono (add_spec hwf hobj) fun r s' hadded =>
    hadded.correct hwf hfresh (hobj.trans hop.symm) hcareful hfirst

/-- A failure that leaves the handle alone, or releases it twice. -/
theorem not_settled_preopen {released : List Handle}
    (hobjs : Objects s s' (.error e) obj) (hfresh : Fresh s h)
    (hdrops : s'.drops = s.drops ++ released) (hlen : released.length ≠ 1) :
    ¬ Settled s (.registerPreopen h) (.error e) s' := by
  rw [hobjs.settled_iff (by simpa [Op.handles] using hfresh) hdrops]
  exact fun hperm => hlen hperm.1.length_eq

theorem Objects.refl (s : State) {s' : State} (htable : s'.table = s.table) (hheap : s'.heap = s.heap)
    (e : Errno) (obj : Object) : Objects s s' (.error e) obj := fun fd =>
  ⟨nofun, fun _ => .inl (by simp [State.object, htable, hheap])⟩

theorem correct_preopenStateInitialize (hwf : Wf s) :
    wp hostOnly (preopenStateInitialize h) (fun r s' => Wf s' ∧ Uses s s' r.isOk ∧
      Objects s s' r (.file h) ∧
      s'.drops = s.drops ++ match r with | .ok _ => [] | .error _ => [h, h]) s := by
  unfold preopenStateInitialize wasilibcAddFile
  rw [wp_bind, wp_bind]
  refine wp_mono (add_spec hwf rfl) fun r s₁ h₁ => ?_
  rw [wp_pure]
  have hdrops := h₁.drops
  have hobjs := h₁.objects hwf
  have huses := h₁.uses
  obtain ⟨r, data⟩ := r
  cases r with
  | error e =>
    simp only [dropOwn, wp_bind, wp_modify, wp_pure]
    exact ⟨h₁.wf.congr rfl rfl fun _ h => h, huses.congr rfl, hobjs,
      by simp [hdrops, released, Object.handles]⟩
  | ok fd => exact ⟨h₁.wf, huses, hobjs, hdrops⟩

theorem reserve_spec :
    wp hostOnly reserve (fun b s' => Uses s s' b ∧
      s' = { s with preopenCapacity := s'.preopenCapacity, answers := s'.answers }) s := by
  unfold reserve
  rw [wp_bind, wp_get]
  split
  case isTrue =>
    unfold resize
    rw [wp_bind]
    refine wp_allocate fun answer rest huses => ?_
    cases answer with
    | false => exact ⟨huses, rfl⟩
    | true => exact ⟨huses.congr rfl, rfl⟩
  case isFalse => exact ⟨.refl s, rfl⟩

theorem correct_registerPreopen (hwf : Wf s) (hfresh : Fresh s h) :
    wp hostOnly (internalRegisterPreopenedFdUnlocked h) ((Op.registerPreopen h).Correct s) s := by
  have hleak : ∀ capacity rest, Uses s { s with answers := rest } false →
      (Op.registerPreopen h).Correct s (.error ENOMEM)
        { s with preopenCapacity := capacity, answers := rest } := by
    intro capacity rest huses
    refine ⟨hwf.congr rfl rfl fun _ h => h, huses.congr rfl,
      iff_of_false ?_ (by simp [Op.Careful, Except.isOk, Except.toBool])⟩
    exact not_settled_preopen (Objects.refl s rfl rfl _ (.file h)) hfresh
      (List.append_nil _).symm (by simp)
  unfold internalRegisterPreopenedFdUnlocked
  rw [wp_bind]
  refine wp_mono reserve_spec fun b s₁ ⟨huses₁, hs₁⟩ => ?_
  generalize s₁.preopenCapacity = capacity, s₁.answers = rest at hs₁
  subst hs₁
  cases b with
  | false => exact hleak capacity rest (huses₁.congr rfl)
  | true =>
    simp only [if_true, wp_bind]
    refine wp_allocate fun b rest' huses₂ => ?_
    have huses : Uses s { s with answers := rest' } b := huses₁.trans (huses₂.congr rfl)
    cases b with
    | false => exact hleak capacity rest' huses
    | true =>
      simp only [if_true, wp_bind]
      have hwf₂ : Wf { s with preopenCapacity := capacity, answers := rest' } :=
        ⟨hwf.table, hwf.bound, hwf.fresh⟩
      refine wp_mono (correct_preopenStateInitialize hwf₂) fun r s₃ h₃ => ?_
      obtain ⟨hwf₃, huses₃, hobjs, hdrops⟩ := h₃
      have huses' : Uses s s₃ r.isOk := huses.trans (huses₃.congr rfl)
      cases r with
      | error e =>
        refine ⟨hwf₃, huses', iff_of_false ?_ (by simp [Op.Careful, Except.isOk, Except.toBool])⟩
        exact not_settled_preopen (s := s) hobjs hfresh hdrops (by simp)
      | ok fd =>
        refine ⟨hwf₃.congr rfl rfl fun _ h => h, huses'.congr rfl, iff_of_true ?_ (.inr rfl)⟩
        exact Objects.settled (s := s) hobjs (by simpa [Op.handles] using hfresh)
          (by simp [Op.handles, Object.handles]) (by simpa using hdrops)

/-- The streams come after the socket. -/
theorem not_childrenFirst {input output : Handle}
    (hnodup : [input, output, client].Nodup) :
    ¬ (Op.accept2 client input output).ChildrenFirst [client, input, output] := by
  rintro ⟨hsub, -⟩
  simp only [List.nodup_cons, List.mem_cons, List.not_mem_nil, or_false, not_or] at hnodup
  obtain ⟨⟨-, hic⟩, hoc, -⟩ := hnodup
  have hmem : client ∈ [output] := by
    rw [List.cons_sublist_cons', List.cons_sublist_cons'] at hsub
    grind
  exact hoc (List.mem_singleton.mp hmem).symm

theorem correct_accept2 {input output : Handle} (hwf : Wf s)
    (hfresh : ∀ x ∈ (Op.accept2 client input output).handles, Fresh s x)
    (hnodup : (Op.accept2 client input output).handles.Nodup) :
    wp hostOnly (tcpAccept4Preview2 client input output)
      ((Op.accept2 client input output).Correct s) s := by
  unfold tcpAccept4Preview2 tcpAdd
  rw [wp_bind]
  refine wp_mono (add_spec hwf rfl) fun r s₁ h₁ => ?_
  have hdrops := h₁.drops
  obtain ⟨r, data⟩ := r
  cases r with
  | error e =>
    have hall : s₁.drops ++ [input] ++ [output] = s.drops ++ [client, input, output] := by
      simp [hdrops, released, Object.handles]
    simp only [dropOwn, wp_bind, wp_modify, wp_pure]
    refine ⟨h₁.wf.congr rfl rfl fun _ h => h, h₁.uses.congr rfl,
      iff_of_false ?_ (by simp [Op.Careful, Except.isOk, Except.toBool])⟩
    intro hsettled
    obtain ⟨all, hall', -, hfirst, -⟩ := hsettled
    cases List.append_cancel_left (hall.symm.trans hall')
    exact not_childrenFirst hnodup hfirst
  | ok fd =>
    simp only [wp_bind, wp_modify, wp_pure]
    refine ⟨h₁.wf.congr rfl rfl fun a => isSome_update data a _, h₁.uses.congr rfl,
      iff_of_true ?_ (.inr rfl)⟩
    refine (h₁.replaced hwf (.tcp client (.streaming input output)) ?_ ?_).settled hfresh
      (fun x hx => hx) ?_
    · rfl
    · rfl
    · simpa [released] using hdrops

theorem correct_accept3 (hwf : Wf s) (hfresh : Fresh s client) :
    wp hostOnly (Op.accept3 client).run ((Op.accept3 client).Correct s) s := by
  have hwf₀ : Wf { s with acceptResult := some client } := ⟨hwf.table, hwf.bound, hwf.fresh⟩
  have hfresh' : ∀ x ∈ (Op.accept3 client).handles, Fresh s x := by
    simpa [Op.handles] using hfresh
  simp only [Op.run, tcpAccept4Preview3, tcpAdd, wp_bind, wp_get, wp_modify]
  refine wp_mono (add_spec hwf₀ rfl) fun r s₁ h₁ => ?_
  have hdrops := h₁.drops
  have hobjs := h₁.objects hwf₀
  obtain ⟨r, data⟩ := r
  cases r with
  | error e =>
    exact ⟨h₁.wf.congr rfl rfl fun _ h => h, h₁.uses.congr rfl, iff_of_true
      ((Objects.settled_iff hobjs hfresh' hdrops).mpr ⟨.refl _, trivial⟩) (.inl trivial)⟩
  | ok fd =>
    refine ⟨h₁.wf.congr rfl rfl fun a => isSome_update data a _, h₁.uses.congr rfl,
      iff_of_true ?_ (.inl trivial)⟩
    refine Objects.settled (h₁.replaced hwf₀ (.tcp client .connected) ?_ ?_) hfresh'
      (fun x hx => hx) ?_
    · rfl
    · rfl
    · simpa [released] using hdrops

theorem Op.run_correct (op : Op) (hwf : Wf s) (hfresh : ∀ x ∈ op.handles, Fresh s x)
    (hnodup : op.handles.Nodup) : wp hostOnly op.run (op.Correct s) s := by
  cases op with
  | openat h => exact correct_add hwf hfresh rfl rfl trivial fun _ => trivial
  | registerPreopen h =>
    exact correct_registerPreopen hwf (hfresh h List.mem_cons_self)
  | tcpSocket h =>
    exact correct_add hwf hfresh rfl rfl trivial fun _ => trivial
  | udpSocket h => exact correct_add hwf hfresh rfl rfl trivial fun _ => trivial
  | accept2 client input output => exact correct_accept2 hwf hfresh hnodup
  | accept3 client => exact correct_accept3 hwf (hfresh client List.mem_cons_self)

/-- Nothing has been registered. -/
def init (answers : List Bool) : State where
  table := ⟨Table.empty, fun _ => 0, 0, []⟩
  heap := fun _ => none
  brk := 1
  stdioInitialized := false
  numPreopens := 0
  preopenCapacity := 0
  acceptResult := none
  drops := []
  answers := answers

theorem denotes_empty (fd : Nat) : Table.empty.denotes fd = none :=
  Table.denotes_of_len_le (Nat.zero_le _)

theorem wf_init (answers : List Bool) : Wf (init answers) :=
  ⟨Table.wf_empty, fun fd e he => by simp [init, denotes_empty] at he, fun _ _ => rfl⟩

theorem fresh_init (answers : List Bool) (h : Handle) : Fresh (init answers) h := by
  rintro fd ⟨obj, hobj, -⟩
  simp [State.object, init, denotes_empty] at hobj

/-- Whatever the allocator answers to the allocations of a call, the call
returns, and each handle passed in is then settled, except where a caller of
`__wasilibc_add_file` or `tcp_add` releases on its own and an allocation
fails. -/
theorem registration_settled_iff (op : Op) (hwf : Wf s) (hfresh : ∀ x ∈ op.handles, Fresh s x)
    (hnodup : op.handles.Nodup) :
    (∀ e, op.run s = .error e → e = .host) ∧
    ∀ r s', op.run s = .ok (r, s') → s'.answers = [] →
      Wf s' ∧ (Settled s op r s' ↔ op.Careful ∨ false ∉ s.answers) := by
  have hcorrect := op.run_correct hwf hfresh hnodup
  refine ⟨fun e he => ok_of_wp hcorrect he, fun r s' hrun hall => ?_⟩
  obtain ⟨hwf', ⟨used, hused, hok⟩, hsettled⟩ := post_of_wp hcorrect hrun
  rw [hall, List.append_nil] at hused
  refine ⟨hwf', ?_⟩
  rw [hsettled, hok, hused]

/-- A call, with what the allocator will answer. -/
def next (s : State) (call : Op × List Bool) : Option State :=
  (Prod.snd <$> call.1.run { s with answers := call.2 }).toOption

/-- The handles passed in are new. -/
def Owned (s : State) (call : Op × List Bool) : Prop :=
  (∀ x ∈ call.1.handles, Fresh s x) ∧ call.1.handles.Nodup

/-- **No descriptor dangles**: whatever is registered, and whichever allocations
fail, each open descriptor names an allocated object, and none below the hint
is free. -/
theorem no_dangling {answers : List Bool} (h : Steps.Reaches next Owned (init answers) s) :
    s.table.table.Wf ∧ ∀ fd, s.table.table.denotes fd ≠ none → (s.object fd).isSome := by
  have hwf : Wf s := h.invariant (wf_init answers) fun s call s' hwf hok hs => by
    have hwf₀ : Wf { s with answers := call.2 } := ⟨hwf.table, hwf.bound, hwf.fresh⟩
    exact state_of_wp (wp_mono (call.1.run_correct hwf₀ hok.1 hok.2) fun _ _ hc => hc.wf) hs
  refine ⟨hwf.table, fun fd hfd => ?_⟩
  obtain ⟨e, he⟩ := Option.ne_none_iff_exists'.mp hfd
  simpa [State.object, he] using (hwf.bound fd e he).2

def someFile : Handle := ⟨.descriptor, 7⟩

theorem no_dangling_openat :
    ∃ s : State, s.table.table.denotes 3 ≠ none ∧ (s.object 3).isSome := by
  have hrun : (next (init []) (.openat someFile, List.replicate 5 true)).map
      (fun s => (s.table.table.denotes 3).isSome) = some true := by decide +kernel
  obtain ⟨s, hs, hopen⟩ := Option.map_eq_some_iff.mp hrun
  have hfd := Option.isSome_iff_ne_none.mp hopen
  exact ⟨s, hfd, (no_dangling (Steps.Reaches.refl.snoc
    ⟨fun x _ => fresh_init _ x, by decide⟩ hs)).2 3 hfd⟩

/-- There is memory for the file, but none for standard input. -/
theorem registration_settled_openat :
    ∃ s', (Op.openat someFile).run (init [true, false]) = .ok (.error ENOMEM, s') ∧
      s'.drops = [someFile] ∧ Settled (init [true, false]) (.openat someFile) (.error ENOMEM) s' := by
  have hrun : ∃ s', (Op.openat someFile).run (init [true, false]) = .ok (.error ENOMEM, s') ∧
      s'.answers = [] ∧ s'.drops = [someFile] := ⟨_, rfl, rfl, rfl⟩
  obtain ⟨s', hs', hall, hdrops⟩ := hrun
  have hsettled := (registration_settled_iff (.openat someFile) (wf_init [true, false])
    (fun x _ => fresh_init _ x) (by decide)).2 _ s' hs' hall
  exact ⟨s', hs', hdrops, hsettled.2.mpr (.inl trivial)⟩

/-- The handle of a preopen is released twice, or not at all; and a socket is
released before the streams that are its children. -/
theorem unsettled_handles :
    (∃ s', (Op.registerPreopen someFile).run (init [true, true, false]) =
      .ok (.error ENOMEM, s') ∧ s'.drops = [someFile, someFile]) ∧
    (∃ s', (Op.registerPreopen someFile).run (init [true, false]) =
      .ok (.error ENOMEM, s') ∧ s'.drops = []) ∧
    ∃ s', (Op.accept2 ⟨.tcpSocket, 1⟩ ⟨.inputStream, 2⟩ ⟨.outputStream, 3⟩).run (init [false]) =
      .ok (.error ENOMEM, s') ∧
      s'.drops = [⟨.tcpSocket, 1⟩, ⟨.inputStream, 2⟩, ⟨.outputStream, 3⟩] :=
  ⟨⟨_, rfl, rfl⟩, ⟨_, rfl, rfl⟩, ⟨_, rfl, rfl⟩⟩

end WasiLibc.Registration

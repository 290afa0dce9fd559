import WasiLibc.Tls.Blocks

/-!
# WasiLibc.Thread.Create

The memory of a new cooperative thread: the guard, the stack with the record
`start_args` at its top, the thread-local storage and the thread-specific data.

`__pthread_create` takes all of it from one allocation, or puts the storage
into the stack that the program brought, or takes only the storage from an
allocation.  Stack and storage are placed from the top downwards.
-/

namespace WasiLibc.Thread

open Layout (alignDown alignUp)

/-- The fields of `pthread_attr_t` that the layout reads.  `_a_stackaddr` is
the end of the stack that the program brought, or null. -/
structure Attr where
  stackaddr : BitVec 32
  stacksize : BitVec 32
  guardsize : BitVec 32

/-- What `__pthread_create` finds: the program, `__pthread_tsd_size`, the
defaults, the calling thread, and what `malloc` and the host will return. -/
structure Env where
  program : Tls.Program
  tsdSize : BitVec 32
  defaultStacksize : BitVec 32
  defaultGuardsize : BitVec 32
  caller : Tls.Caller
  self : BitVec 32
  malloc : BitVec 32 → Option (BitVec 32)
  threadNew : BitVec 32

/-- The local variables `map`, `size`, `guard`, `stack`, `tsd` and
`stack_limit`. -/
structure Areas where
  map : BitVec 32
  size : BitVec 32
  guard : BitVec 32
  stack : BitVec 32
  tsd : BitVec 32
  stackLimit : BitVec 32
deriving DecidableEq

/-- The macro `ROUND`. -/
def round (x : BitVec 32) : BitVec 32 := (x + 16 - 1) &&& -16

/-- The stack that the program brought, with the storage in it when that takes
little of it. -/
def userStack (attr : Attr) (tlsSize tsdSize : BitVec 32) : Areas :=
  let need := tlsSize + tsdSize
  let stack := attr.stackaddr &&& -16
  let stackLimit := attr.stackaddr - attr.stacksize
  if need < attr.stacksize / 8 ∧ need < 2048 then
    ⟨0, attr.stacksize, 0, stack - tsdSize - tlsSize, stack - tsdSize, stackLimit⟩
  else ⟨0, round need, 0, stack, 0, stackLimit⟩

/-- Everything in one allocation, which is not made yet. -/
def ownStack (attr : Attr) (tlsSize tsdSize : BitVec 32) : Areas :=
  let guard := round attr.guardsize
  ⟨0, guard + round (attr.stacksize + tlsSize + tsdSize), guard, 0, 0, 0⟩

/-- The allocation, where the storage has no place yet. -/
def allocate (malloc : BitVec 32 → Option (BitVec 32)) (tlsSize tsdSize : BitVec 32) (a : Areas) :
    Option Areas :=
  if a.tsd ≠ 0 then some a
  else do
    let map ← malloc a.size
    let tsd := map + a.size - tsdSize
    if a.stack = 0 then
      return { a with map := map, tsd := tsd, stack := tsd - tlsSize, stackLimit := map + a.guard }
    else return { a with map := map, tsd := tsd }

/-- A failing call returns `EAGAIN`; a thread id that is not below
`MAIN_THREAD_TID` traps. -/
inductive Failure where
  | eagain
  | trap
deriving DecidableEq

/-- The new thread: its areas, `tls_layout` and the start of libc's storage
there, `struct pthread`, the record `start_args` and the stack pointer. -/
structure Created where
  areas : Areas
  tlsLayout : BitVec 32
  new : BitVec 32
  args : BitVec 32
  stack : BitVec 32
deriving DecidableEq

/-- The attributes that count: those of the caller, or the defaults. -/
def Env.attr (env : Env) (attrp : Option Attr) : Attr :=
  attrp.getD ⟨0, env.defaultStacksize, env.defaultGuardsize⟩

/-- `__pthread_create`; `attrp` is `none` for a null pointer and for a C11
thread. -/
def pthreadCreate (env : Env) (attrp : Option Attr) :
    StateT (BitVec 32) (Except Failure) Created := do
  let (tlsSize, tlsAlign) := Tls.tlsSize env.program
  let tlsSize := tlsSize + tlsAlign
  let attr := env.attr attrp
  let areas :=
    if attr.stackaddr ≠ 0 then userStack attr tlsSize env.tsdSize
    else ownStack attr tlsSize env.tsdSize
  let some areas := allocate env.malloc tlsSize env.tsdSize areas | throw .eagain
  let tlsLayout := (areas.tsd - (tlsSize - tlsAlign)) &&& -tlsAlign
  let tlsOffset := env.self - env.caller.currentLibcBase
  let some (libcBase, offset) := (Tls.libcTlsBase env.program env.caller tlsLayout).run (← get)
    | throw .trap
  set offset
  -- `sizeof(struct start_args)` and `alignof(struct start_args)`
  let args := areas.stack - 20
  let args := args - args % 4
  if env.threadNew = -1 then throw .eagain
  else if (0x3ffffffe#32).sle env.threadNew then throw .trap
  else return ⟨areas, tlsLayout, libcBase + tlsOffset, args, args &&& -16⟩

/-! ## Regions -/

/-- The addresses from `start` up to `stop`. -/
structure Region where
  start : Nat
  stop : Nat

def Region.Apart (r r' : Region) : Prop := r.stop ≤ r'.start ∨ r'.stop ≤ r.start

def Region.Within (r outer : Region) : Prop :=
  outer.start ≤ r.start ∧ r.start ≤ r.stop ∧ r.stop ≤ outer.stop

/-- The guard, the stack, `start_args`, the thread-local storage and the
thread-specific data of a new thread. -/
def Created.regions (t : Created) (env : Env) : List Region :=
  [⟨t.areas.stackLimit.toNat - t.areas.guard.toNat, t.areas.stackLimit.toNat⟩,
    ⟨t.areas.stackLimit.toNat, t.stack.toNat⟩,
    ⟨t.args.toNat, t.args.toNat + 20⟩,
    ⟨t.tlsLayout.toNat, t.tlsLayout.toNat + (Tls.tlsSize env.program).1.toNat⟩,
    ⟨t.areas.tsd.toNat, t.areas.tsd.toNat + env.tsdSize.toNat⟩]

def Areas.block (a : Areas) : Region := ⟨a.map.toNat, a.map.toNat + a.size.toNat⟩

def Attr.userStack (attr : Attr) : Region :=
  ⟨attr.stackaddr.toNat - attr.stacksize.toNat, attr.stackaddr.toNat⟩

/-! ## What is assumed -/

/-- `tls_size`, with the room for its alignment, and `__pthread_tsd_size`. -/
def Env.tlsNeed (env : Env) : Nat :=
  (Tls.tlsSize env.program).1.toNat + (Tls.tlsSize env.program).2.toNat

/-- The stack has the least size, `PTHREAD_STACK_MIN`, and the computations of
sizes do not overflow. -/
structure Fits (env : Env) (attr : Attr) : Prop where
  stackMin : 2048 ≤ attr.stacksize.toNat
  user : attr.stackaddr ≠ 0 → attr.stacksize.toNat ≤ attr.stackaddr.toNat ∧
    alignUp 16 (env.tlsNeed + env.tsdSize.toNat) < 2 ^ 32
  own : attr.stackaddr = 0 → alignUp 16 attr.guardsize.toNat +
    alignUp 16 (attr.stacksize.toNat + env.tlsNeed + env.tsdSize.toNat) < 2 ^ 32
  tls : ∀ libs, env.program = .multi libs → Tls.reserved libs < 2 ^ 32

/-- `malloc` returns a block of the address space, apart from the stack that
the program brought. -/
def Env.Mallocs (env : Env) (attr : Attr) : Prop :=
  ∀ size map, env.malloc size = some map → map ≠ 0 ∧ map.toNat + size.toNat < 2 ^ 32 ∧
    (attr.stackaddr ≠ 0 → attr.userStack.Apart ⟨map.toNat, map.toNat + size.toNat⟩)

/-- The calling thread: its `struct pthread`, of `sizeof` bytes, is in libc's
storage, and `libc_offset` is unset or right. -/
def Env.Runs (env : Env) (sizeof : Nat) (offset : BitVec 32) : Prop :=
  match env.program with
  | .single module => env.caller.currentLibcBase.toNat ≤ env.self.toNat ∧
      env.self.toNat + sizeof ≤ env.caller.currentLibcBase.toNat + module.size.toNat
  | .multi libs => ∃ (libc : Nat) (lib : Tls.Library) (current : BitVec 32) (p : Nat),
      Tls.Filled libs libc env.caller current ∧
      Layout.Placed (Tls.blocks libs) (4 * libs.length) libc lib.block p ∧
      (offset = -1 ∨ offset = BitVec.ofNat 32 p) ∧
      env.caller.currentLibcBase.toNat ≤ env.self.toNat ∧
      env.self.toNat + sizeof ≤ env.caller.currentLibcBase.toNat + lib.size.toNat

/-! ## The areas -/

theorem toNat_round {x : BitVec 32} (h : alignUp 16 x.toNat < 2 ^ 32) :
    (round x).toNat = alignUp 16 x.toNat := by
  have hassoc : x + 16 - 1 = x + (16 - 1) := by bv_omega
  have h16 : (16 : BitVec 32).toNat = 2 ^ 4 := rfl
  rw [round, hassoc]
  exact Layout.toNat_add_and_neg h16 h

theorem toNat_and_neg_sixteen (x : BitVec 32) : (x &&& -16).toNat = x.toNat / 16 * 16 :=
  Layout.toNat_and_neg (k := 4) rfl

/-- Stack and storage, each below the end of its region, and the stack below
the storage where both are in one. -/
structure Areas.Split (a : Areas) (tlsSize tsdSize : Nat) (outer outer' : Region) : Prop where
  guard : outer.start + a.guard.toNat ≤ a.stackLimit.toNat
  limit : a.stackLimit.toNat + 64 ≤ a.stack.toNat
  stack : a.stack.toNat ≤ outer.stop
  tls : outer'.start + tlsSize ≤ a.tsd.toNat
  tsd : a.tsd.toNat + tsdSize ≤ outer'.stop
  apart : a.stack.toNat + tlsSize ≤ a.tsd.toNat ∨ outer.Apart outer'

section

variable {env : Env} {attr : Attr} {a a₀ : Areas} {malloc : BitVec 32 → Option (BitVec 32)}
  {tlsSize tsdSize : BitVec 32}

theorem allocate_eq_some (htsd : a₀.tsd = 0) (h : allocate malloc tlsSize tsdSize a₀ = some a) :
    ∃ map, malloc a₀.size = some map ∧
      a = { a₀ with
        map := map
        tsd := map + a₀.size - tsdSize
        stack := if a₀.stack = 0 then map + a₀.size - tsdSize - tlsSize else a₀.stack
        stackLimit := if a₀.stack = 0 then map + a₀.guard else a₀.stackLimit } := by
  rw [allocate, if_neg (by simpa using htsd)] at h
  cases hmap : malloc a₀.size with
  | none => simp [hmap] at h
  | some map =>
    refine ⟨map, rfl, ?_⟩
    simp only [hmap, Option.bind_eq_bind, Option.bind_some] at h
    by_cases hstack : a₀.stack = 0
    · simp only [if_pos hstack] at h ⊢
      exact (Option.some.inj h).symm
    · simp only [if_neg hstack] at h ⊢
      exact (Option.some.inj h).symm

/-- Everything is in the allocation. -/
theorem split_ownStack (hfits : Fits env attr) (hmalloc : env.Mallocs attr)
    (htls : tlsSize.toNat = env.tlsNeed) (hattr : attr.stackaddr = 0)
    (h : allocate env.malloc tlsSize env.tsdSize (ownStack attr tlsSize env.tsdSize) = some a) :
    a.map ≠ 0 ∧ a.Split tlsSize.toNat env.tsdSize.toNat a.block a.block := by
  have hown := hfits.own hattr
  have hmin := hfits.stackMin
  have hguard : (round attr.guardsize).toNat = alignUp 16 attr.guardsize.toNat :=
    toNat_round (by omega)
  have hle := Layout.le_alignUp (a := 16) (by omega)
    (x := attr.stacksize.toNat + env.tlsNeed + env.tsdSize.toNat)
  have hsum : (attr.stacksize + tlsSize + env.tsdSize).toNat =
      attr.stacksize.toNat + env.tlsNeed + env.tsdSize.toNat := by
    rw [← htls] at hown hle ⊢
    bv_omega
  have hround : (round (attr.stacksize + tlsSize + env.tsdSize)).toNat =
      alignUp 16 (attr.stacksize.toNat + env.tlsNeed + env.tsdSize.toNat) := by
    rw [← hsum]
    exact toNat_round (by rw [hsum]; omega)
  obtain ⟨map, hmap, rfl⟩ := allocate_eq_some rfl h
  obtain ⟨hne, hend, -⟩ := hmalloc _ map hmap
  simp only [ownStack, if_true] at hend ⊢
  refine ⟨hne, ?_, ?_, ?_, ?_, ?_, ?_⟩
  all_goals simp only [Areas.block]
  all_goals bv_omega

section

variable (hfits : Fits env attr) (htls : tlsSize.toNat = env.tlsNeed) (hattr : attr.stackaddr ≠ 0)

include hfits htls hattr

theorem toNat_need : (tlsSize + env.tsdSize).toNat = tlsSize.toNat + env.tsdSize.toNat := by
  have hround := (hfits.user hattr).2
  have hle := Layout.le_alignUp (a := 16) (by omega) (x := env.tlsNeed + env.tsdSize.toNat)
  rw [BitVec.toNat_add, Nat.mod_eq_of_lt (by omega)]

/-- The storage takes less than an eighth of the stack that the program
brought, and is put there. -/
theorem split_userStack
    (hneed : tlsSize + env.tsdSize < attr.stacksize / 8 ∧ tlsSize + env.tsdSize < 2048)
    (h : allocate env.malloc tlsSize env.tsdSize (userStack attr tlsSize env.tsdSize) = some a) :
    a.Split tlsSize.toNat env.tsdSize.toNat attr.userStack attr.userStack := by
  have huser := (hfits.user hattr).1
  have hmin := hfits.stackMin
  have hsum := toNat_need hfits htls hattr
  have hmask := toNat_and_neg_sixteen attr.stackaddr
  have hlt : tlsSize.toNat + env.tsdSize.toNat < attr.stacksize.toNat / 8 := by
    have hlt := hneed.1
    rwa [BitVec.lt_def, hsum, BitVec.toNat_udiv] at hlt
  generalize hstack : attr.stackaddr &&& -16 = stack at hmask
  have ha : a = ⟨0, attr.stacksize, 0, stack - env.tsdSize - tlsSize, stack - env.tsdSize,
      attr.stackaddr - attr.stacksize⟩ := by
    have hne : stack - env.tsdSize ≠ 0 := by bv_omega
    simp only [userStack, hstack, if_pos hneed, allocate, if_pos hne] at h
    exact (Option.some.inj h).symm
  subst ha
  refine ⟨?_, ?_, ?_, ?_, ?_, ?_⟩
  all_goals simp only [Attr.userStack]
  all_goals bv_omega

/-- The stack is the one that the program brought, and the storage has an
allocation of its own. -/
theorem split_allocated (hmalloc : env.Mallocs attr)
    (hneed : ¬(tlsSize + env.tsdSize < attr.stacksize / 8 ∧ tlsSize + env.tsdSize < 2048))
    (h : allocate env.malloc tlsSize env.tsdSize (userStack attr tlsSize env.tsdSize) = some a) :
    a.map ≠ 0 ∧ a.Split tlsSize.toNat env.tsdSize.toNat attr.userStack a.block := by
  obtain ⟨huser, hround⟩ := hfits.user hattr
  have hmin := hfits.stackMin
  have hsum := toNat_need hfits htls hattr
  have hmask := toNat_and_neg_sixteen attr.stackaddr
  have hle := Layout.le_alignUp (a := 16) (by omega) (x := env.tlsNeed + env.tsdSize.toNat)
  have hsize : (round (tlsSize + env.tsdSize)).toNat =
      alignUp 16 (env.tlsNeed + env.tsdSize.toNat) := by
    rw [← htls, ← hsum] at hround ⊢
    exact toNat_round hround
  generalize hstack : attr.stackaddr &&& -16 = stack at hmask
  simp only [userStack, hstack, if_neg hneed] at h
  obtain ⟨map, hmap, rfl⟩ := allocate_eq_some rfl h
  obtain ⟨hne, hend, hapart⟩ := hmalloc _ map hmap
  have hstack0 : stack ≠ 0 := by bv_omega
  simp only [if_neg hstack0] at hend hapart ⊢
  refine ⟨hne, ?_, ?_, ?_, ?_, ?_, .inr (hapart hattr)⟩
  all_goals simp only [Attr.userStack, Areas.block]
  all_goals bv_omega

end

/-! ## The regions -/

/-- The regions of a new thread are apart, those of the stack in `outer` and
those of the storage in `outer'`. -/
theorem Areas.Split.regions {outer outer' : Region} {t : Created}
    (h : t.areas.Split env.tlsNeed env.tsdSize.toNat outer outer')
    (hlayout : t.tlsLayout.toNat = alignDown (Tls.tlsSize env.program).2.toNat
      (t.areas.tsd.toNat - (Tls.tlsSize env.program).1.toNat))
    (hargs : t.args = t.areas.stack - 20 - (t.areas.stack - 20) % 4)
    (hstack : t.stack = t.args &&& -16) (hpos : 0 < (Tls.tlsSize env.program).2.toNat) :
    (t.regions env).Pairwise Region.Apart ∧
      ∀ r ∈ t.regions env, r.Within outer ∨ r.Within outer' := by
  obtain ⟨hguard, hlimit, hout, htls, htsd, hapart⟩ := h
  have hlow : t.areas.tsd.toNat - (Tls.tlsSize env.program).1.toNat <
      t.tlsLayout.toNat + (Tls.tlsSize env.program).2.toNat :=
    hlayout ▸ Layout.lt_alignDown_add hpos
  have hhigh : t.tlsLayout.toNat ≤ t.areas.tsd.toNat - (Tls.tlsSize env.program).1.toNat :=
    hlayout ▸ Layout.alignDown_le
  have hsp : t.stack.toNat = t.args.toNat / 16 * 16 := by rw [hstack, toNat_and_neg_sixteen]
  have hargs' : t.args.toNat + 20 ≤ t.areas.stack.toNat ∧
      t.areas.stack.toNat ≤ t.args.toNat + 23 := by
    have hsub : (t.areas.stack - 20).toNat = t.areas.stack.toNat - 20 := by bv_omega
    have hmod : ((t.areas.stack - 20) % 4).toNat = (t.areas.stack - 20).toNat % 4 :=
      BitVec.toNat_umod
    rw [hargs, BitVec.toNat_sub_of_le (by rw [BitVec.le_def]; omega)]
    omega
  have hsep : t.areas.stack.toNat ≤ t.tlsLayout.toNat ∨ outer.Apart outer' := by
    refine hapart.imp_left fun hle => ?_
    rw [Env.tlsNeed] at hle
    omega
  rw [Env.tlsNeed] at htls
  clear hlayout hargs hstack hapart
  simp only [Created.regions, List.pairwise_cons, List.forall_mem_cons, List.not_mem_nil,
    IsEmpty.forall_iff, implies_true, List.Pairwise.nil, and_true]
  simp only [Region.Apart, Region.Within] at hsep ⊢
  and_intros <;> omega

/-! ## The call -/

/-- The storage that is reserved, with the room for its alignment. -/
def Env.tls (env : Env) : BitVec 32 := (Tls.tlsSize env.program).1 + (Tls.tlsSize env.program).2

/-- The areas before an allocation. -/
def Env.areas (env : Env) (attr : Attr) : Areas :=
  if attr.stackaddr ≠ 0 then userStack attr env.tls env.tsdSize
  else ownStack attr env.tls env.tsdSize

theorem pthreadCreate_eq_ok {attrp : Option Attr} {offset offset' : BitVec 32} {t : Created}
    (h : (pthreadCreate env attrp).run offset = .ok (t, offset')) :
    ∃ libcBase, allocate env.malloc env.tls env.tsdSize (env.areas (env.attr attrp)) =
        some t.areas ∧
      (Tls.libcTlsBase env.program env.caller t.tlsLayout).run offset = some (libcBase, offset') ∧
      t.tlsLayout = (t.areas.tsd - (env.tls - (Tls.tlsSize env.program).2)) &&&
        -(Tls.tlsSize env.program).2 ∧
      t.new = libcBase + (env.self - env.caller.currentLibcBase) ∧
      t.args = t.areas.stack - 20 - (t.areas.stack - 20) % 4 ∧ t.stack = t.args &&& -16 := by
  unfold pthreadCreate at h
  simp only at h
  split at h
  case h_1 a ha =>
    simp only [StateT.run_bind, StateT.run_get, pure_bind] at h
    split at h
    case h_1 libcBase offset₁ hlibc =>
      simp only [StateT.run_bind, StateT.run_set, pure_bind] at h
      split at h
      case isTrue => cases h
      case isFalse =>
        split at h
        case isTrue => cases h
        case isFalse =>
          cases h
          exact ⟨libcBase, ha, hlibc, rfl, rfl, rfl, rfl⟩
    case h_2 => cases h
  case h_2 => cases h

/-- libc's block is `n` bytes at `p` in the storage, of the calling thread and
of the new one. -/
theorem libcTlsBase_spec {sizeof : Nat} {offset : BitVec 32} (layout : BitVec 32)
    (htls : ∀ libs, env.program = .multi libs → Tls.reserved libs < 2 ^ 32)
    (hruns : env.Runs sizeof offset) :
    ∃ p n offset', (Tls.libcTlsBase env.program env.caller layout).run offset =
        some (layout + BitVec.ofNat 32 p, offset') ∧ env.Runs sizeof offset' ∧
      env.caller.currentLibcBase.toNat ≤ env.self.toNat ∧
      env.self.toNat + sizeof ≤ env.caller.currentLibcBase.toNat + n ∧
      p + n ≤ (Tls.tlsSize env.program).1.toNat := by
  cases hprogram : env.program with
  | single module =>
    have hself := hruns
    simp only [Env.Runs, hprogram] at hself
    refine ⟨0, module.size.toNat, offset, ?_, hruns, hself.1, hself.2, ?_⟩
    · simp [Tls.libcTlsBase]
    · exact Nat.le_of_eq (Nat.zero_add _)
  | multi libs =>
    simp only [Env.Runs, hprogram] at hruns ⊢
    obtain ⟨libc, lib, current, p, hfilled, hp, hoffset, hlow, hhigh⟩ := hruns
    have hend : p + lib.size.toNat ≤ Layout.finish (Tls.blocks libs) (4 * libs.length) :=
      hp.spec.2.2.2
    refine ⟨p, lib.size.toNat, BitVec.ofNat 32 p, Tls.libcTlsBase_eq hfilled hp hoffset,
      ⟨libc, lib, current, p, hfilled, hp, .inr rfl, hlow, hhigh⟩, hlow, hhigh, ?_⟩
    rw [Tls.tlsSize_fst (htls libs hprogram)]
    exact hend.trans (Tls.finish_le_reserved libs)

end

/-- A region that the thread may use: the block of `malloc`, or the stack that
the program brought. -/
def Region.Usable (r : Region) (attr : Attr) (a : Areas) : Prop :=
  (a.map ≠ 0 ∧ r = a.block) ∨ (attr.stackaddr ≠ 0 ∧ r = attr.userStack)

theorem Region.Usable.within {r outer : Region} {attr : Attr} {a : Areas}
    (h : outer.Usable attr a) (hr : r.Within outer) :
    (a.map ≠ 0 ∧ r.Within a.block) ∨ (attr.stackaddr ≠ 0 ∧ r.Within attr.userStack) := by
  rcases h with ⟨hmap, rfl⟩ | ⟨hattr, rfl⟩
  · exact .inl ⟨hmap, hr⟩
  · exact .inr ⟨hattr, hr⟩

section

variable {env : Env} {attr : Attr} {a : Areas}

theorem toNat_tls (hfits : Fits env attr) : env.tls.toNat = env.tlsNeed := by
  rw [Env.tls, BitVec.toNat_add]
  refine Nat.mod_eq_of_lt (show env.tlsNeed < 2 ^ 32 from ?_)
  by_cases hattr : attr.stackaddr = 0
  · have hown := hfits.own hattr
    have hle := Layout.le_alignUp (a := 16) (by omega)
      (x := attr.stacksize.toNat + env.tlsNeed + env.tsdSize.toNat)
    omega
  · have huser := (hfits.user hattr).2
    have hle := Layout.le_alignUp (a := 16) (by omega) (x := env.tlsNeed + env.tsdSize.toNat)
    omega

theorem exists_split (hfits : Fits env attr) (hmalloc : env.Mallocs attr)
    (h : allocate env.malloc env.tls env.tsdSize (env.areas attr) = some a) :
    ∃ outer outer', a.Split env.tlsNeed env.tsdSize.toNat outer outer' ∧
      outer.Usable attr a ∧ outer'.Usable attr a := by
  have htls := toNat_tls hfits
  by_cases hattr : attr.stackaddr = 0
  · rw [Env.areas, if_neg (not_not_intro hattr)] at h
    obtain ⟨hmap, hsplit⟩ := split_ownStack hfits hmalloc htls hattr h
    exact ⟨_, _, htls ▸ hsplit, .inl ⟨hmap, rfl⟩, .inl ⟨hmap, rfl⟩⟩
  · rw [Env.areas, if_pos hattr] at h
    by_cases hneed : env.tls + env.tsdSize < attr.stacksize / 8 ∧ env.tls + env.tsdSize < 2048
    · have hsplit := split_userStack hfits htls hattr hneed h
      exact ⟨_, _, htls ▸ hsplit, .inr ⟨hattr, rfl⟩, .inr ⟨hattr, rfl⟩⟩
    · obtain ⟨hmap, hsplit⟩ := split_allocated hfits htls hattr hmalloc hneed h
      exact ⟨_, _, htls ▸ hsplit, .inr ⟨hattr, rfl⟩, .inl ⟨hmap, rfl⟩⟩

end

/-- The memory of a new thread: its regions are apart, each in the block of
`malloc` or in the stack that the program brought. -/
structure LaidOut (env : Env) (attr : Attr) (sizeof : Nat) (t : Created) : Prop where
  apart : (t.regions env).Pairwise Region.Apart
  inside : ∀ r ∈ t.regions env, (t.areas.map ≠ 0 ∧ r.Within t.areas.block) ∨
    (attr.stackaddr ≠ 0 ∧ r.Within attr.userStack)
  tlsAligned : (Tls.tlsSize env.program).2.toNat ∣ t.tlsLayout.toNat
  stackAligned : 16 ∣ t.stack.toNat
  new : Region.Within ⟨t.new.toNat, t.new.toNat + sizeof⟩
    ⟨t.tlsLayout.toNat, t.tlsLayout.toNat + (Tls.tlsSize env.program).1.toNat⟩

/-- A successful `__pthread_create` lays out the memory of the new thread, and
leaves `libc_offset` right for the next. -/
theorem pthreadCreate_laidOut {env : Env} {attrp : Option Attr} {sizeof : Nat}
    {offset offset' : BitVec 32} {t : Created} (hfits : Fits env (env.attr attrp))
    (hmalloc : env.Mallocs (env.attr attrp)) (hruns : env.Runs sizeof offset)
    (h : (pthreadCreate env attrp).run offset = .ok (t, offset')) :
    LaidOut env (env.attr attrp) sizeof t ∧ env.Runs sizeof offset' := by
  obtain ⟨libcBase, halloc, hlibc, hlayout, hnew, hargs, hstack⟩ := pthreadCreate_eq_ok h
  obtain ⟨outer, outer', hsplit, houter, houter'⟩ := exists_split hfits hmalloc halloc
  obtain ⟨k, hk⟩ := Tls.tlsSize_isPowerOfTwo env.program
  have hpos : 0 < (Tls.tlsSize env.program).2.toNat := hk ▸ Nat.two_pow_pos k
  have htls := hsplit.tls
  rw [Env.tlsNeed] at htls
  have hlayout' : t.tlsLayout.toNat = alignDown (Tls.tlsSize env.program).2.toNat
      (t.areas.tsd.toNat - (Tls.tlsSize env.program).1.toNat) := by
    have hsize : env.tls - (Tls.tlsSize env.program).2 = (Tls.tlsSize env.program).1 :=
      BitVec.add_sub_cancel _ _
    rw [hlayout, hsize, Layout.toNat_and_neg hk,
      BitVec.toNat_sub_of_le (by rw [BitVec.le_def]; omega)]
  obtain ⟨hapart, hinside⟩ := hsplit.regions hlayout' hargs hstack hpos
  obtain ⟨p, n, offset₁, hbase, hruns', hlow, hhigh, hend⟩ :=
    libcTlsBase_spec t.tlsLayout hfits.tls hruns
  obtain ⟨rfl, rfl⟩ := Prod.mk.inj (Option.some.inj (hbase.symm.trans hlibc))
  refine ⟨⟨hapart, ?_, hlayout' ▸ Layout.dvd_alignDown, ?_, ?_⟩, hruns'⟩
  · intro r hr
    exact (hinside r hr).elim houter.within houter'.within
  · rw [hstack, toNat_and_neg_sixteen]
    exact Nat.dvd_mul_left 16 _
  · have hdown : t.tlsLayout.toNat ≤ t.areas.tsd.toNat - (Tls.tlsSize env.program).1.toNat :=
      hlayout' ▸ Layout.alignDown_le
    have hnew' : t.new.toNat = t.tlsLayout.toNat + p +
        (env.self.toNat - env.caller.currentLibcBase.toNat) := by
      rw [hnew, BitVec.toNat_add, BitVec.toNat_add, BitVec.toNat_ofNat,
        BitVec.toNat_sub_of_le (by rw [BitVec.le_def]; omega)]
      omega
    simp only [Region.Within]
    omega

/-- A single module with storage of 100 bytes aligned to 32, and a stack that
the program brought and that is too small for it. -/
theorem pthreadCreate_laidOut_single :
    let env : Env := {
      program := .single ⟨100, 32, 5, rfl⟩
      tsdSize := 512
      defaultStacksize := 65536
      defaultGuardsize := 0
      caller := ⟨[], 1024⟩
      self := 1028
      malloc := fun size => if size < 4096 then some 65536 else none
      threadNew := 1 }
    let attr : Attr := ⟨20003, 2048, 0⟩
    ∃ t offset, (pthreadCreate env (some attr)).run (-1) = .ok (t, offset) ∧
      LaidOut env attr 64 t := by
  intro env attr
  have hfits : Fits env attr := by
    refine ⟨by decide, fun _ => by decide, fun h => absurd h (by decide), ?_⟩
    rintro libs ⟨⟩
  have hmalloc : env.Mallocs attr := by
    intro size map h
    obtain ⟨hsize, rfl⟩ : size < 4096 ∧ 65536 = map := by simpa [env] using h
    have hlt : size.toNat < 4096 := hsize
    have hbelow : attr.userStack.stop ≤ (65536 : BitVec 32).toNat := by decide
    refine ⟨by decide, ?_, fun _ => .inl hbelow⟩
    show 65536 + size.toNat < 2 ^ 32
    omega
  have hruns : env.Runs 64 (-1) := ⟨by decide, by decide⟩
  have hrun : (pthreadCreate env (some attr)).run (-1) = .ok
      (⟨⟨65536, 656, 0, 20000, 65680, 17955⟩, 65568, 65572, 19980, 19968⟩, -1) := by
    decide +kernel
  exact ⟨_, _, hrun, (pthreadCreate_laidOut hfits hmalloc hruns hrun).1⟩

end WasiLibc.Thread

import WasiLibc.Lib.Layout

/-!
# WasiLibc.Tls.Blocks

The thread-local storage of a program of several libraries: an array with one
base pointer for each library, and behind it the blocks of those libraries
that have any storage.

The layout is computed three times: `__wasilibc_tls_size` computes how much
memory it takes, `__wasilibc_tls_init` gives each library its block, and
`libc_tls_base` looks for the block of libc itself.
-/

namespace WasiLibc.Tls

open Layout (Block place finish Placed)

/-- `align_up`. -/
def alignUp (value align : BitVec 32) : BitVec 32 := (value + (align - 1)) &&& -align

/-- What `tls_size_and_align` of a library says. -/
structure Library where
  size : BitVec 32
  align : BitVec 32
  isPowerOfTwo : ∃ k, align.toNat = 2 ^ k

/-- What `__wasilibc_program_tls_info` returns: null for a single module,
whose storage the linker describes, and else the libraries. -/
inductive Program where
  | single (module : Library)
  | multi (libraries : List Library)

/-- The size of the array of base pointers. -/
def pointers (libs : List Library) : BitVec 32 := BitVec.ofNat 32 libs.length * 4

/-- The loop of `__wasilibc_tls_size`. -/
def sizeLoop : List Library → BitVec 32 → BitVec 32 → BitVec 32 × BitVec 32
  | [], size, align => (size, align)
  | lib :: libs, size, align =>
    if lib.size = 0 then sizeLoop libs size align
    else sizeLoop libs (alignUp size lib.align + lib.size)
      (if lib.align > align then lib.align else align)

/-- `__wasilibc_tls_size`: the size, and the alignment. -/
def tlsSize : Program → BitVec 32 × BitVec 32
  | .single module => (module.size, module.align)
  | .multi libs =>
    let (size, align) := sizeLoop libs (pointers libs) 4
    (alignUp size align, align)

/-- The loop of `__wasilibc_tls_init`: the base that each library is given. -/
def initLoop : List Library → BitVec 32 → List (Option (BitVec 32))
  | [], _ => []
  | lib :: libs, next =>
    if lib.size = 0 then none :: initLoop libs next
    else some (alignUp next lib.align) :: initLoop libs (alignUp next lib.align + lib.size)

/-- `__wasilibc_tls_init`: the base pointers that `init_tls` of the libraries
writes into the array.  A library without storage is skipped. -/
def tlsInit : Program → BitVec 32 → List (Option (BitVec 32))
  | .single _, layout => [some layout]
  | .multi libs, layout => initLoop libs (layout + pointers libs)

/-- What `libc_tls_base` reads of the thread that calls it. -/
structure Caller where
  currentBases : List (BitVec 32)
  currentLibcBase : BitVec 32

/-- The search of `libc_tls_base`; `-1` when it finds nothing. -/
def searchLoop (currentLibcBase : BitVec 32) : List (Library × BitVec 32) → BitVec 32 → BitVec 32
  | [], _ => -1
  | (lib, base) :: rest, next =>
    if lib.size = 0 then searchLoop currentLibcBase rest next
    else if base = currentLibcBase then alignUp next lib.align
    else searchLoop currentLibcBase rest (alignUp next lib.align + lib.size)

/-- `libc_tls_base`, which keeps the offset in the static `libc_offset`. -/
def libcTlsBase (program : Program) (caller : Caller) (layout : BitVec 32) :
    StateT (BitVec 32) Option (BitVec 32) :=
  match program with
  | .single _ => pure layout
  | .multi libs => do
    if (← get) = -1 then
      set (searchLoop caller.currentLibcBase (libs.zip caller.currentBases) (pointers libs))
      if (← get) = -1 then failure
    return layout + (← get)

/-! ## The exact layout -/

theorem Library.align_pos (lib : Library) : 0 < lib.align.toNat := by
  obtain ⟨k, hk⟩ := lib.isPowerOfTwo
  exact hk ▸ Nat.two_pow_pos k

def Library.block (lib : Library) : Block := ⟨lib.size.toNat, lib.align.toNat, lib.align_pos⟩

def blocks (libs : List Library) : List Block := libs.map Library.block

/-- The memory that the layout takes, as a number. -/
def reserved (libs : List Library) : Nat :=
  Layout.alignUp (tlsSize (.multi libs)).2.toNat (finish (blocks libs) (4 * libs.length))

/-- The base is aligned as `__wasilibc_tls_size` wants it, and no address of
the layout overflows. -/
structure Room (libs : List Library) (base : BitVec 32) : Prop where
  aligned : (tlsSize (.multi libs)).2.toNat ∣ base.toNat
  fits : base.toNat + reserved libs < 2 ^ 32

section

variable {lib : Library} {libs : List Library} {next base : BitVec 32} {i : Nat}

theorem toNat_ne_zero (h : lib.size ≠ 0) : lib.size.toNat ≠ 0 :=
  fun h' => h (BitVec.eq_of_toNat_eq h')

/-- One step of the three loops. -/
theorem toNat_alignUp (h : Layout.alignUp lib.align.toNat next.toNat + lib.size.toNat < 2 ^ 32) :
    (alignUp next lib.align).toNat = Layout.alignUp lib.align.toNat next.toNat ∧
      (alignUp next lib.align + lib.size).toNat =
        Layout.alignUp lib.align.toNat next.toNat + lib.size.toNat := by
  obtain ⟨k, hk⟩ := lib.isPowerOfTwo
  have hup : (alignUp next lib.align).toNat = Layout.alignUp lib.align.toNat next.toNat :=
    Layout.toNat_add_and_neg hk (by omega)
  refine ⟨hup, ?_⟩
  rw [BitVec.toNat_add, hup, Nat.mod_eq_of_lt h]

theorem fits_step (hlib : lib.size ≠ 0) (h : finish (blocks (lib :: libs)) next.toNat < 2 ^ 32) :
    Layout.alignUp lib.align.toNat next.toNat + lib.size.toNat < 2 ^ 32 ∧
      finish (blocks libs) (Layout.alignUp lib.align.toNat next.toNat + lib.size.toNat) < 2 ^ 32 := by
  have hsize : lib.block.size ≠ 0 := toNat_ne_zero hlib
  simp only [blocks, List.map_cons, finish, if_neg hsize] at h
  exact ⟨Nat.lt_of_le_of_lt Layout.le_finish h, h⟩

theorem sizeLoop_fst {align : BitVec 32} (h : finish (blocks libs) next.toNat < 2 ^ 32) :
    (sizeLoop libs next align).1.toNat = finish (blocks libs) next.toNat := by
  induction libs generalizing next align with
  | nil => rfl
  | cons lib libs ih =>
    by_cases hlib : lib.size = 0
    · simp only [sizeLoop, if_pos hlib]
      have hzero : lib.block.size = 0 := by simp [Library.block, hlib]
      simp only [blocks, List.map_cons, finish, if_pos hzero] at h ⊢
      exact ih h
    · have hfits := fits_step hlib h
      have hstep := toNat_alignUp hfits.1
      have hsize : lib.block.size ≠ 0 := toNat_ne_zero hlib
      simp only [sizeLoop, if_neg hlib, blocks, List.map_cons, finish, if_neg hsize]
      rw [ih (by rw [hstep.2]; exact hfits.2), hstep.2]
      rfl

theorem initLoop_eq (h : finish (blocks libs) next.toNat < 2 ^ 32) :
    (initLoop libs next).map (Option.map BitVec.toNat) = place (blocks libs) next.toNat := by
  induction libs generalizing next with
  | nil => rfl
  | cons lib libs ih =>
    by_cases hlib : lib.size = 0
    · have hzero : lib.block.size = 0 := by simp [Library.block, hlib]
      simp only [blocks, List.map_cons, finish, if_pos hzero] at h
      simp only [initLoop, if_pos hlib, blocks, List.map_cons, place, if_pos hzero, Option.map_none]
      rw [ih h]
      rfl
    · have hfits := fits_step hlib h
      have hstep := toNat_alignUp hfits.1
      have hsize : lib.block.size ≠ 0 := toNat_ne_zero hlib
      simp only [initLoop, if_neg hlib, blocks, List.map_cons, place, if_neg hsize, Option.map_some]
      rw [ih (by rw [hstep.2]; exact hfits.2), hstep.2, hstep.1]
      rfl

/-! ## The alignment of the whole -/

theorem dvd_of_le {a b : BitVec 32} (ha : ∃ k, a.toNat = 2 ^ k) (hb : ∃ k, b.toNat = 2 ^ k)
    (hle : a.toNat ≤ b.toNat) : a.toNat ∣ b.toNat := by
  obtain ⟨k, hk⟩ := ha
  obtain ⟨m, hm⟩ := hb
  rw [hk, hm] at hle ⊢
  exact Nat.pow_dvd_pow 2 ((Nat.pow_le_pow_iff_right (by decide)).mp hle)

theorem sizeLoop_snd {align : BitVec 32} (halign : ∃ k, align.toNat = 2 ^ k) :
    (∃ k, (sizeLoop libs next align).2.toNat = 2 ^ k) ∧
      align.toNat ≤ (sizeLoop libs next align).2.toNat ∧
      ∀ lib ∈ libs, lib.size ≠ 0 → lib.align.toNat ≤ (sizeLoop libs next align).2.toNat := by
  induction libs generalizing next align with
  | nil => exact ⟨halign, Nat.le_refl _, by simp⟩
  | cons lib libs ih =>
    by_cases hlib : lib.size = 0
    · simp only [sizeLoop, if_pos hlib, List.forall_mem_cons]
      obtain ⟨hpow, hle, hall⟩ := ih halign
      exact ⟨hpow, hle, fun h => absurd hlib h, hall⟩
    · simp only [sizeLoop, if_neg hlib, List.forall_mem_cons]
      by_cases hgt : lib.align > align
      · obtain ⟨hpow, hle, hall⟩ := ih lib.isPowerOfTwo
        rw [if_pos hgt]
        have hlt : align.toNat < lib.align.toNat := hgt
        exact ⟨hpow, by omega, fun _ => hle, hall⟩
      · obtain ⟨hpow, hle, hall⟩ := ih halign
        rw [if_neg hgt]
        have hlt : ¬ align.toNat < lib.align.toNat := hgt
        exact ⟨hpow, hle, fun _ => by omega, hall⟩

theorem four_isPowerOfTwo : ∃ k, (4 : BitVec 32).toNat = 2 ^ k := ⟨2, rfl⟩

theorem tlsSize_isPowerOfTwo (program : Program) : ∃ k, (tlsSize program).2.toNat = 2 ^ k := by
  cases program with
  | single module => exact module.isPowerOfTwo
  | multi libs => exact (sizeLoop_snd four_isPowerOfTwo).1

/-- A base that is aligned for the whole is aligned for each block. -/
theorem Room.dvd (h : Room libs base) : ∀ b ∈ blocks libs, b.size ≠ 0 → b.align ∣ base.toNat := by
  intro b hb hsize
  obtain ⟨lib, hlib, rfl⟩ := List.mem_map.mp hb
  have hne : lib.size ≠ 0 := by
    rintro hzero
    exact hsize (by simp [Library.block, hzero])
  have hle : _ ≤ (sizeLoop libs (pointers libs) 4).2.toNat :=
    (sizeLoop_snd four_isPowerOfTwo).2.2 lib hlib hne
  exact (dvd_of_le lib.isPowerOfTwo (tlsSize_isPowerOfTwo (.multi libs)) hle).trans h.aligned

/-! ## The three computations -/

theorem finish_le_reserved (libs : List Library) :
    finish (blocks libs) (4 * libs.length) ≤ reserved libs := by
  obtain ⟨k, hk⟩ := tlsSize_isPowerOfTwo (.multi libs)
  exact Layout.le_alignUp (hk ▸ Nat.two_pow_pos k)

theorem toNat_pointers (h : 4 * libs.length < 2 ^ 32) : (pointers libs).toNat = 4 * libs.length := by
  rw [pointers, BitVec.toNat_mul, BitVec.toNat_ofNat]
  simp only [BitVec.reduceToNat]
  omega

theorem toNat_pointers_of_reserved (h : reserved libs < 2 ^ 32) :
    (pointers libs).toNat = 4 * libs.length :=
  toNat_pointers (Nat.lt_of_le_of_lt (Layout.le_finish.trans (finish_le_reserved libs)) h)

theorem tlsSize_fst (h : reserved libs < 2 ^ 32) : (tlsSize (.multi libs)).1.toNat = reserved libs := by
  have hstart := toNat_pointers_of_reserved h
  obtain ⟨k, hk⟩ := tlsSize_isPowerOfTwo (.multi libs)
  have hsize : (sizeLoop libs (pointers libs) 4).1.toNat = finish (blocks libs) (4 * libs.length) := by
    rw [sizeLoop_fst (by rw [hstart]; exact Nat.lt_of_le_of_lt (finish_le_reserved libs) h), hstart]
  show (alignUp (sizeLoop libs (pointers libs) 4).1 (sizeLoop libs (pointers libs) 4).2).toNat = _
  have hk' : (sizeLoop libs (pointers libs) 4).2.toNat = 2 ^ k := hk
  rw [alignUp, Layout.toNat_add_and_neg hk' (by rw [hsize]; exact h), hsize]
  rfl

/-- Each block is as far from the base as it is from zero. -/
theorem tlsInit_eq (h : Room libs base) :
    (tlsInit (.multi libs) base).map (Option.map BitVec.toNat) =
      (place (blocks libs) (4 * libs.length)).map (Option.map (base.toNat + ·)) := by
  have hfits := h.fits
  have hstart : (pointers libs).toNat = 4 * libs.length :=
    toNat_pointers_of_reserved (by omega)
  have hle := finish_le_reserved libs
  have hbelow : 4 * libs.length ≤ finish (blocks libs) (4 * libs.length) := Layout.le_finish
  have hnext : (base + pointers libs).toNat = base.toNat + 4 * libs.length := by
    rw [BitVec.toNat_add, hstart, Nat.mod_eq_of_lt (by omega)]
  have hfinish : finish (blocks libs) (base.toNat + 4 * libs.length) = _ :=
    Layout.finish_add h.dvd
  rw [tlsInit, initLoop_eq (by rw [hnext]; omega), hnext, Layout.place_add h.dvd]

/-- The block of a library, at its distance from the base. -/
theorem tlsInit_getElem? (h : Room libs base) (hlib : libs[i]? = some lib) {r : BitVec 32} :
    (tlsInit (.multi libs) base)[i]? = some (some r) ↔
      ∃ p, Placed (blocks libs) (4 * libs.length) i lib.block p ∧ r.toNat = base.toNat + p := by
  have hmap := congrArg (·[i]?) (tlsInit_eq h)
  simp only [List.getElem?_map] at hmap
  have hblock : (blocks libs)[i]? = some lib.block := by simp [blocks, hlib]
  unfold Placed
  constructor
  · intro hr
    rw [hr] at hmap
    cases hplace : (place (blocks libs) (4 * libs.length))[i]? with
    | none => simp [hplace] at hmap
    | some q =>
      cases q with
      | none => simp [hplace] at hmap
      | some p => exact ⟨p, ⟨hblock, rfl⟩, by simpa [hplace] using hmap⟩
  · rintro ⟨p, ⟨-, hp⟩, hr⟩
    rw [hp] at hmap
    cases hinit : (tlsInit (.multi libs) base)[i]? with
    | none => simp [hinit] at hmap
    | some q =>
      cases q with
      | none => simp [hinit] at hmap
      | some r' =>
        have hr' : r'.toNat = base.toNat + p := by simpa [hinit] using hmap
        rw [BitVec.eq_of_toNat_eq (hr.trans hr'.symm)]

/-- The search finds the block of the one library whose base is that of libc. -/
theorem searchLoop_eq {bases : List (BitVec 32)} {libcBase : BitVec 32} {libc p : Nat} {b : Block}
    (hfit : finish (blocks libs) next.toNat < 2 ^ 32)
    (hp : Placed (blocks libs) next.toNat libc b p)
    (hlen : bases.length = libs.length)
    (hbase : ∀ i lib, libs[i]? = some lib → lib.size ≠ 0 → (bases[i]? = some libcBase ↔ i = libc)) :
    (searchLoop libcBase (libs.zip bases) next).toNat = p := by
  induction libs generalizing bases next libc with
  | nil => simp [Placed, blocks] at hp
  | cons lib libs ih =>
    cases bases with
    | nil => simp at hlen
    | cons base bases =>
      have hlen' : bases.length = libs.length := by simpa using hlen
      have hrest : ∀ libc', libc = libc' + 1 → ∀ i lib, libs[i]? = some lib → lib.size ≠ 0 →
          (bases[i]? = some libcBase ↔ i = libc') := by
        intro libc' h i lib hi hlib
        have hi' := hbase (i + 1) lib (by simpa using hi) hlib
        rwa [List.getElem?_cons_succ, h, Nat.add_right_cancel_iff] at hi'
      by_cases hlib : lib.size = 0
      · have hzero : lib.block.size = 0 := by simp [Library.block, hlib]
        simp only [blocks, List.map_cons] at hfit hp
        simp only [Layout.finish_cons, if_pos hzero] at hfit
        simp only [List.zip_cons_cons, searchLoop, if_pos hlib]
        cases libc with
        | zero => exact absurd hzero (Layout.placed_zero.mp hp).2.1
        | succ libc =>
          have hp' := Layout.placed_succ.mp hp
          rw [if_pos hzero] at hp'
          exact ih hfit hp' hlen' (hrest libc rfl)
      · have hfits := fits_step hlib hfit
        have hstep := toNat_alignUp hfits.1
        have hsize : lib.block.size ≠ 0 := toNat_ne_zero hlib
        have hfirst := hbase 0 lib rfl hlib
        simp only [List.zip_cons_cons, searchLoop, if_neg hlib]
        simp only [List.getElem?_cons_zero, Option.some.injEq] at hfirst
        cases libc with
        | zero =>
          rw [if_pos (hfirst.mpr rfl), hstep.1]
          exact (Layout.placed_zero.mp hp).2.2.symm
        | succ libc =>
          have hp' := Layout.placed_succ.mp hp
          rw [if_neg hsize] at hp'
          rw [if_neg fun h => absurd (hfirst.mp h) (by omega)]
          exact ih (by rw [hstep.2]; exact hfits.2) (by rw [hstep.2]; exact hp') hlen' (hrest libc rfl)

end

/-! ## The blocks -/

/-- Library `i` is `lib`, and its block starts at `r`. -/
def Given (libs : List Library) (bases : List (Option (BitVec 32))) (i : Nat) (lib : Library)
    (r : BitVec 32) : Prop :=
  libs[i]? = some lib ∧ bases[i]? = some (some r)

/-- Every library with storage has a block, at its alignment, behind the array
of pointers, within `size` bytes from the base, and apart from the others. -/
structure LaidOut (libs : List Library) (base : BitVec 32) (size : Nat)
    (bases : List (Option (BitVec 32))) : Prop where
  assigned : ∀ (i : Nat) (lib : Library), libs[i]? = some lib → lib.size ≠ 0 →
    ∃ r, Given libs bases i lib r
  aligned : ∀ (i : Nat) (lib : Library) (r : BitVec 32), Given libs bases i lib r →
    lib.align.toNat ∣ r.toNat
  behind : ∀ (i : Nat) (lib : Library) (r : BitVec 32), Given libs bases i lib r →
    base.toNat + 4 * libs.length ≤ r.toNat
  inside : ∀ (i : Nat) (lib : Library) (r : BitVec 32), Given libs bases i lib r →
    r.toNat + lib.size.toNat ≤ base.toNat + size
  apart : ∀ (i j : Nat) (lib lib' : Library) (r r' : BitVec 32), i ≠ j →
    Given libs bases i lib r → Given libs bases j lib' r' →
    r.toNat + lib.size.toNat ≤ r'.toNat ∨ r'.toNat + lib'.size.toNat ≤ r.toNat

/-- The block of a library, at its distance from the base. -/
theorem given_iff {libs : List Library} {base r : BitVec 32} {i : Nat} {lib : Library}
    (h : Room libs base) : Given libs (tlsInit (.multi libs) base) i lib r ↔
      libs[i]? = some lib ∧
        ∃ p, Placed (blocks libs) (4 * libs.length) i lib.block p ∧ r.toNat = base.toNat + p :=
  and_congr_right fun hlib => tlsInit_getElem? h hlib

theorem laidOut {libs : List Library} {base : BitVec 32} (h : Room libs base) :
    LaidOut libs base (reserved libs) (tlsInit (.multi libs) base) where
  assigned i lib hi hlib := by
    have hblock : (blocks libs)[i]? = some lib.block := by simp [blocks, hi]
    obtain ⟨p, hp⟩ : ∃ p, Placed (blocks libs) (4 * libs.length) i lib.block p :=
      Layout.exists_placed hblock (toNat_ne_zero hlib)
    have hend : p + lib.size.toNat ≤ finish (blocks libs) (4 * libs.length) := hp.spec.2.2.2
    have hle := finish_le_reserved libs
    have hfits := h.fits
    refine ⟨BitVec.ofNat 32 (base.toNat + p), (given_iff h).mpr ⟨hi, p, hp, ?_⟩⟩
    exact (BitVec.toNat_ofNat _ 32).trans (Nat.mod_eq_of_lt (by omega))
  aligned i lib r hr := by
    obtain ⟨-, p, hp, hr⟩ := (given_iff h).mp hr
    obtain ⟨hsize, hdvd, -, -⟩ := hp.spec
    rw [hr]
    exact Nat.dvd_add (h.dvd _ (List.mem_of_getElem? hp.1) hsize) hdvd
  behind i lib r hr := by
    obtain ⟨-, p, hp, hr⟩ := (given_iff h).mp hr
    have hle := hp.spec.2.2.1
    omega
  inside i lib r hr := by
    obtain ⟨-, p, hp, hr⟩ := (given_iff h).mp hr
    have hend : p + lib.size.toNat ≤ finish (blocks libs) (4 * libs.length) := hp.spec.2.2.2
    have hle := finish_le_reserved libs
    omega
  apart i j lib lib' r r' hij hr hr' := by
    obtain ⟨-, p, hp, hr⟩ := (given_iff h).mp hr
    obtain ⟨-, q, hq, hr'⟩ := (given_iff h).mp hr'
    rcases Nat.lt_or_gt_of_ne hij with hlt | hgt
    · have hle : p + lib.size.toNat ≤ q := hp.before hq hlt
      exact .inl (by omega)
    · have hle : q + lib'.size.toNat ≤ p := hq.before hp hgt
      exact .inr (by omega)

/-! ## libc's own block -/

/-- The array of the calling thread was filled by the layout at `current`,
and its storage of libc is library `libc` of that layout. -/
structure Filled (libs : List Library) (libc : Nat) (caller : Caller) (current : BitVec 32) :
    Prop where
  room : Room libs current
  length : caller.currentBases.length = libs.length
  bases : ∀ (i : Nat) (lib : Library) (r : BitVec 32),
    Given libs (tlsInit (.multi libs) current) i lib r → caller.currentBases[i]? = some r
  libcBase : ∃ lib, Given libs (tlsInit (.multi libs) current) libc lib caller.currentLibcBase

section

variable {libs : List Library} {libc : Nat} {lib : Library} {caller : Caller}
  {current : BitVec 32} {p : Nat}

/-- Two libraries with storage do not start at one address. -/
theorem Filled.base_eq_iff (h : Filled libs libc caller current) :
    ∀ i lib, libs[i]? = some lib → lib.size ≠ 0 →
      (caller.currentBases[i]? = some caller.currentLibcBase ↔ i = libc) := by
  intro i lib hi hne
  have hlaid := laidOut h.room
  obtain ⟨lib', hlibc⟩ := h.libcBase
  constructor
  · intro hbase
    obtain ⟨r, hr⟩ := hlaid.assigned i lib hi hne
    obtain rfl : r = caller.currentLibcBase :=
      Option.some.inj ((h.bases i lib r hr).symm.trans hbase)
    by_contra hij
    obtain ⟨-, q, hq, -⟩ := (given_iff h.room).mp hlibc
    have hpos : lib'.size.toNat ≠ 0 := hq.spec.1
    have hpos' := toNat_ne_zero hne
    have hapart := hlaid.apart i libc lib lib' _ _ hij hr hlibc
    omega
  · rintro rfl
    exact h.bases i lib' _ hlibc

theorem searchLoop_of_filled (h : Filled libs libc caller current)
    (hp : Placed (blocks libs) (4 * libs.length) libc lib.block p) :
    (searchLoop caller.currentLibcBase (libs.zip caller.currentBases) (pointers libs)).toNat = p := by
  have hfits := h.room.fits
  have hle := finish_le_reserved libs
  have hstart : (pointers libs).toNat = 4 * libs.length :=
    toNat_pointers_of_reserved (by omega)
  refine searchLoop_eq (b := lib.block) ?_ (by rw [hstart]; exact hp) h.length h.base_eq_iff
  rw [hstart]
  omega

/-- The cell is unset, or holds the offset of libc's block: `libc_tls_base`
returns that block of the layout it is given, and leaves the offset there. -/
theorem libcTlsBase_eq {offset layout : BitVec 32} (h : Filled libs libc caller current)
    (hp : Placed (blocks libs) (4 * libs.length) libc lib.block p)
    (hoffset : offset = -1 ∨ offset = BitVec.ofNat 32 p) :
    (libcTlsBase (.multi libs) caller layout).run offset =
      some (layout + BitVec.ofNat 32 p, BitVec.ofNat 32 p) := by
  have hend : p + lib.size.toNat ≤ finish (blocks libs) (4 * libs.length) := hp.spec.2.2.2
  have hpos : lib.size.toNat ≠ 0 := hp.spec.1
  have hle := finish_le_reserved libs
  have hfits := h.room.fits
  have hsearch : searchLoop caller.currentLibcBase (libs.zip caller.currentBases) (pointers libs) =
      BitVec.ofNat 32 p := by
    refine BitVec.eq_of_toNat_eq ?_
    rw [searchLoop_of_filled h hp, BitVec.toNat_ofNat, Nat.mod_eq_of_lt (by omega)]
  have hset : BitVec.ofNat 32 p ≠ 4294967295#32 := by
    intro heq
    have hp' := congrArg BitVec.toNat heq
    rw [BitVec.toNat_ofNat, Nat.mod_eq_of_lt (by omega), BitVec.toNat_ofNat] at hp'
    omega
  rcases hoffset with rfl | rfl
  · simp [libcTlsBase, hsearch, hset]
  · simp [libcTlsBase, hset]

/-- The calls of `libc_tls_base` in a run of the program, each by some thread
for the layout of another. -/
def libcTlsBases (program : Program) (calls : List (Caller × BitVec 32)) :
    StateT (BitVec 32) Option (List (BitVec 32)) :=
  calls.mapM fun call => libcTlsBase program call.1 call.2

theorem libcTlsBases_eq {calls : List (Caller × BitVec 32)} {offset : BitVec 32}
    (hcalls : ∀ call ∈ calls, ∃ current, Filled libs libc call.1 current)
    (hp : Placed (blocks libs) (4 * libs.length) libc lib.block p)
    (hoffset : offset = -1 ∨ offset = BitVec.ofNat 32 p) :
    ∃ offset', (libcTlsBases (.multi libs) calls).run offset =
      some (calls.map fun call => call.2 + BitVec.ofNat 32 p, offset') := by
  induction calls generalizing offset with
  | nil => exact ⟨offset, rfl⟩
  | cons call calls ih =>
    obtain ⟨current, hfilled⟩ := hcalls call List.mem_cons_self
    obtain ⟨offset', hrest⟩ := ih (fun c hc => hcalls c (List.mem_cons_of_mem call hc)) (.inr rfl)
    refine ⟨offset', ?_⟩
    rw [libcTlsBases] at hrest ⊢
    simp [List.mapM_cons, libcTlsBase_eq hfilled hp hoffset, hrest]

end

/-- The blocks that `__wasilibc_tls_init` gives to the libraries are aligned,
apart, behind the pointers and inside what `__wasilibc_tls_size` reserves, and
every call of `libc_tls_base` returns libc's own block among them. -/
theorem tls_layout_correct {libs : List Library} {base : BitVec 32} (hroom : Room libs base) :
    LaidOut libs base (tlsSize (.multi libs)).1.toNat (tlsInit (.multi libs) base) ∧
      ∀ (libc : Nat) (lib : Library), libs[libc]? = some lib → lib.size ≠ 0 →
        ∀ calls : List (Caller × BitVec 32),
          (∀ call ∈ calls, (∃ current, Filled libs libc call.1 current) ∧ Room libs call.2) →
          ∃ bases offset, (libcTlsBases (.multi libs) calls).run (-1) = some (bases, offset) ∧
            List.Forall₂ (fun call r => Given libs (tlsInit (.multi libs) call.2) libc lib r)
              calls bases := by
  have hfits := hroom.fits
  have hsize : (tlsSize (.multi libs)).1.toNat = reserved libs := tlsSize_fst (by omega)
  refine ⟨hsize ▸ laidOut hroom, ?_⟩
  intro libc lib hlib hne calls hcalls
  have hblock : (blocks libs)[libc]? = some lib.block := by simp [blocks, hlib]
  obtain ⟨p, hp⟩ : ∃ p, Placed (blocks libs) (4 * libs.length) libc lib.block p :=
    Layout.exists_placed hblock (toNat_ne_zero hne)
  obtain ⟨offset, hrun⟩ := libcTlsBases_eq (fun call hc => (hcalls call hc).1) hp (.inl rfl)
  refine ⟨_, offset, hrun, ?_⟩
  rw [List.forall₂_map_right_iff, List.forall₂_same]
  intro call hc
  have hroom' := (hcalls call hc).2
  have hend : p + lib.size.toNat ≤ finish (blocks libs) (4 * libs.length) := hp.spec.2.2.2
  have hle := finish_le_reserved libs
  have hfits' := hroom'.fits
  refine (given_iff hroom').mpr ⟨hlib, p, hp, ?_⟩
  rw [BitVec.toNat_add, BitVec.toNat_ofNat, Nat.mod_eq_of_lt (by omega : p < 2 ^ 32),
    Nat.mod_eq_of_lt (by omega)]

/-- Three bytes, a library without storage, and libc with eight bytes aligned
to eight. -/
theorem tls_layout_correct_three :
    let libs : List Library := [⟨3, 1, 0, rfl⟩, ⟨0, 16, 4, rfl⟩, ⟨8, 8, 3, rfl⟩]
    LaidOut libs 64 24 [some 76, none, some 80] ∧
      (libcTlsBase (.multi libs) ⟨[76, 0, 80], 80⟩ 128).run (-1) = some (144, 16) := by
  have hroom : Room [⟨3, 1, 0, rfl⟩, ⟨0, 16, 4, rfl⟩, ⟨8, 8, 3, rfl⟩] 64 :=
    ⟨by decide, by decide⟩
  exact ⟨(tls_layout_correct hroom).1, rfl⟩

end WasiLibc.Tls

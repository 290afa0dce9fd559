import WasiLibc.Directory.Skips

/-!
# WasiLibc.Directory.Seek

`telldir` and `seekdir` of wasip1.  The place in a directory is the cookie of
the last entry that was returned, and it passes through the C type `long`,
which has 32 bits.

* `scans_ready` -- however often `readdir` is called, the stream is at a place
  of the directory, and its buffer has only been doubled;
* `restores_iff` -- `seekdir` comes back to the places whose cookies have no
  more than 32 bits.
-/

namespace WasiLibc.Directory.Buffer

open Errno

/-- `telldir`.  The conversion to `long` keeps 32 bits of the cookie. -/
def telldir (d : Dir) : BitVec 32 := d.cookie.toBitVec.setWidth 32

/-- `seekdir`.  The place is converted by way of `unsigned long`. -/
def seekdir (d : Dir) (loc : BitVec 32) : Dir :=
  { d with
    cookie := UInt64.ofBitVec (loc.setWidth 64)
    -- the whole buffer counts as processed
    bufferUsed := d.bufferSize
    bufferProcessed := d.bufferSize }

/-- `readdir` is called any number of times. -/
def Scans (env : Env) : Dir → Dir → Prop :=
  Relation.ReflTransGen fun d d' => ∃ r errno, Returns env d r errno d'

/-- In every directory, at every point of a scan at which the cookie is the
given one: after any further calls `seekdir` with the place of that point makes
`readdir` return what it returned there. -/
def Restores (cookie : UInt64) : Prop :=
  ∀ (L : RawListing) (stat : List UInt8 → Option Stat) (d₀ d d' : Dir),
    fdopendir (L.env stat) = .ok d₀ → Scans (L.env stat) d₀ d → d.cookie = cookie →
    Scans (L.env stat) d d' → ∀ r errno d₁, Returns (L.env stat) d r errno d₁ →
      ∃ errno' d₂, Returns (L.env stat) (seekdir d' (telldir d)) r errno' d₂

variable {L : RawListing} {stat : List UInt8 → Option Stat} {es : List RawEntry} {d d' : Dir}

/-! ## Buffers that have grown -/

theorem Growth.double {size size' : Nat} (h : Growth stat es size size') :
    ∃ k, size' = size * 2 ^ k := by
  obtain ⟨-, e, -, -, -, -, -, rfl⟩ := h
  exact exists_growSize_eq size e.size

theorem Grown.double {size size' : Nat} (h : Grown stat es size size') :
    ∃ k, size' = size * 2 ^ k := by
  induction h with
  | refl => exact ⟨0, (Nat.mul_one size).symm⟩
  | tail _ hgrowth ih =>
    obtain ⟨k, rfl⟩ := ih
    obtain ⟨l, rfl⟩ := hgrowth.double
    exact ⟨k + l, by rw [Nat.mul_assoc, Nat.pow_add]⟩

/-- A call that returns with some buffer returns with one that has been
doubled. -/
theorem Served.double {size k : Nat} (h : Served stat es size) (hpos : 0 < size) :
    Served stat es (size * 2 ^ k) := by
  obtain ⟨size', hgrown, hneed⟩ := h
  induction hgrown using Relation.ReflTransGen.head_induction_on generalizing k with
  | refl =>
    have hle : size' * 1 ≤ size' * 2 ^ k := Nat.mul_le_mul_left size' (Nat.two_pow_pos k)
    exact ⟨_, .refl, by omega⟩
  | @head size mid hgrowth hrest ih =>
    have hmid := hgrowth.le hpos
    by_cases hle : mid ≤ size * 2 ^ k
    · -- the doubled size is beyond this growth
      obtain ⟨l, rfl⟩ := hgrowth.double
      have hlk : l ≤ k :=
        (Nat.pow_le_pow_iff_right Nat.one_lt_two).mp (Nat.le_of_mul_le_mul_left hle hpos)
      have hsize : size * 2 ^ k = size * 2 ^ l * 2 ^ (k - l) := by
        rw [Nat.mul_assoc, ← Nat.pow_add, Nat.add_sub_cancel' hlk]
      rw [hsize]
      exact ih (Nat.lt_of_lt_of_le hpos hmid)
    · -- it is before it, and grows in its turn
      obtain ⟨done, e, todo, hes, hskip, hheader, hlt, rfl⟩ := hgrowth
      obtain ⟨hlarge, hsame⟩ := growSize_of_lt (Nat.lt_of_not_le hle)
      have hge : size * 1 ≤ size * 2 ^ k := Nat.mul_le_mul_left size (Nat.two_pow_pos k)
      refine ⟨size', .head ⟨done, e, todo, hes, hskip, by omega, hlarge, hsame.symm⟩ hrest, hneed⟩

/-! ## Places of a scan -/

theorem Ready.size_le (h : Ready L stat es d) : defaultBufferSize ≤ d.bufferSize := by
  cases h with
  | entries h => exact h.size
  | ended h _ => exact h.size

theorem Ready.dirent_pos (h : Ready L stat es d) : 0 < d.direntSize := by
  cases h with
  | entries h => exact h.dirent
  | ended h _ => exact h.dirent

/-- What a call returns depends on the cookie only. -/
theorem Ready.result {r : Except Errno (Option Dirent)} {errno : Option Errno}
    (h : Ready L stat es d) (hcall : Returns (L.env stat) d r errno d') :
    r = .ok ((survivors stat (L.after d.cookie)).head?.map (RawEntry.dirent stat)) ∧
      Served stat (L.after d.cookie) d.bufferSize := by
  have hserved := h.served hcall
  obtain ⟨size, hgrown, hneed⟩ := hserved
  obtain ⟨r', hends, hout⟩ := h.returns hgrown hneed
  obtain rfl := hends.unique hcall
  have hresult : r = _ := hout.result
  cases h with
  | entries h =>
    rw [h.after, List.nil_append]
    exact ⟨hresult, size, hgrown, hneed⟩
  | ended h hlt =>
    have hdone := h.done_le
    have hused := h.le_used
    rw [h.after, survivors_append h.skipped]
    refine ⟨hresult, d.bufferSize, .refl, ?_⟩
    rw [need_append h.skipped, need]
    omega

theorem scans_ready (h : Ready L stat es d) (hscans : Scans (L.env stat) d d') :
    ∃ es' k, Ready L stat es' d' ∧ d'.bufferSize = d.bufferSize * 2 ^ k := by
  induction hscans with
  | refl => exact ⟨es, 0, h, (Nat.mul_one _).symm⟩
  | tail _ hcall ih =>
    obtain ⟨es₁, k, hready, hsize⟩ := ih
    obtain ⟨r, errno, hcall⟩ := hcall
    obtain ⟨size, hgrown, hneed⟩ := hready.served hcall
    obtain ⟨r', hends, hout⟩ := hready.returns hgrown hneed
    obtain rfl := hends.unique hcall
    obtain ⟨l, hl⟩ := hgrown.double
    refine ⟨_, k + l, hout.ready, ?_⟩
    rw [hout.size, hl, hsize, Nat.mul_assoc, Nat.pow_add]

/-- The call after `seekdir`. -/
theorem Ready.seekdir_returns (h : Ready L stat es d) (loc : BitVec 32)
    (hserved : Served stat (L.after (seekdir d loc).cookie) d.bufferSize) :
    ∃ errno d', Returns (L.env stat) (seekdir d loc)
      (.ok ((survivors stat (L.after (seekdir d loc).cookie)).head?.map (RawEntry.dirent stat)))
      errno d' := by
  have hturn : turnErrno (L.env stat) (none, seekdir d loc) =
      .inr (none, L.fetch (seekdir d loc)) :=
    turnErrno_refill (by simp [seekdir, Header.size]) (by simp [seekdir])
  have hplace : Place L stat [] (L.after (seekdir d loc).cookie) (L.fetch (seekdir d loc)) :=
    place_fetch h.size_le h.dirent_pos
  obtain ⟨size, hgrown, hneed⟩ := hserved
  obtain ⟨r, hends, hout⟩ := (Ready.entries hplace).returns hgrown hneed
  obtain ⟨result, errno, d'⟩ := r
  obtain rfl : result = _ := hout.result
  exact ⟨errno, d', .next hturn hends⟩

/-! ## Cookies of more than 32 bits -/

/-- A cookie that has been through `telldir` and `seekdir`. -/
def wrapped (cookie : UInt64) : UInt64 := UInt64.ofBitVec ((cookie.toBitVec.setWidth 32).setWidth 64)

theorem toNat_wrapped (cookie : UInt64) : (wrapped cookie).toNat = cookie.toNat % 2 ^ 32 := by
  have hlt : cookie.toNat % 4294967296 < 18446744073709551616 := by omega
  simpa [wrapped] using hlt

theorem cookie_seekdir_telldir (d d' : Dir) :
    (seekdir d' (telldir d)).cookie = wrapped d.cookie := rfl

def plainEntry (cookie : UInt64) : RawEntry := ⟨cookie, 1, 4, [0x61], by decide⟩

/-- A directory in which the place of the last entry is mistaken for the one
before it. -/
def aliased (cookie : UInt64) (h : 2 ^ 32 ≤ cookie.toNat) : RawListing where
  entries := (if wrapped cookie = 0 then [] else [plainEntry (wrapped cookie)]) ++ [plainEntry cookie]
  distinct := by
    have hwrapped := toNat_wrapped cookie
    have hzero : cookie ≠ 0 := by
      rintro rfl
      simp at h
    have hne : wrapped cookie ≠ cookie := by
      intro heq
      rw [heq] at hwrapped
      omega
    split
    case isTrue => simp [plainEntry, hzero.symm]
    case isFalse h0 => simp [plainEntry, hzero.symm, hne, Ne.symm h0]

/-- The next entry is returned, if the buffer can hold it. -/
theorem Ready.step {e : RawEntry} {rest : List RawEntry} (h : Ready L stat (e :: rest) d)
    (hskip : e.skipped stat = false) (hsize : e.size ≤ defaultBufferSize) :
    ∃ d', Scans (L.env stat) d d' ∧ Ready L stat rest d' ∧ d'.cookie = e.next := by
  have hneed : need stat (e :: rest) ≤ d.bufferSize := by
    rw [need, hskip]
    exact Nat.le_trans hsize h.size_le
  obtain ⟨r, hends, hout⟩ := h.returns .refl hneed
  have hready := hout.ready
  have hcookie := hout.cookie
  rw [behind_cons_of_not_skipped hskip] at hready
  rw [survivors_cons_of_not_skipped hskip] at hcookie
  exact ⟨r.2.2, .single ⟨r.1, r.2.1, hends⟩, hready, hcookie⟩

theorem plainEntry_skipped (cookie : UInt64) : (plainEntry cookie).skipped stat = false := by
  rfl

/-- The scan of that directory comes to the cookie at its end. -/
theorem scans_aliased (stat : List UInt8 → Option Stat) (cookie : UInt64) (h : 2 ^ 32 ≤ cookie.toNat) :
    ∃ d₀ d, fdopendir ((aliased cookie h).env stat) = .ok d₀ ∧
      Scans ((aliased cookie h).env stat) d₀ d ∧ Ready (aliased cookie h) stat [] d ∧
      d.cookie = cookie := by
  have hready := (aliased cookie h).ready_start stat
  have hsize : ∀ cookie, (plainEntry cookie).size ≤ defaultBufferSize := fun _ =>
    show 25 ≤ defaultBufferSize by decide
  have hentries : (aliased cookie h).entries =
      (if wrapped cookie = 0 then [] else [plainEntry (wrapped cookie)]) ++ [plainEntry cookie] := rfl
  rw [hentries] at hready
  by_cases h0 : wrapped cookie = 0
  · rw [if_pos h0] at hready
    obtain ⟨d, hscans, hend, hcookie⟩ := hready.step (plainEntry_skipped cookie) (hsize cookie)
    exact ⟨_, d, rfl, hscans, hend, hcookie⟩
  · rw [if_neg h0] at hready
    obtain ⟨d₁, hfirst, hready₁, -⟩ := hready.step (plainEntry_skipped _) (hsize _)
    obtain ⟨d, hscans, hend, hcookie⟩ := hready₁.step (plainEntry_skipped cookie) (hsize cookie)
    exact ⟨_, d, rfl, hfirst.trans hscans, hend, hcookie⟩

theorem after_aliased (cookie : UInt64) (h : 2 ^ 32 ≤ cookie.toNat) :
    (aliased cookie h).after (wrapped cookie) = [plainEntry cookie] := by
  by_cases h0 : wrapped cookie = 0
  · simp [RawListing.after, aliased, h0]
  · have hsuffix : plainEntry (wrapped cookie) :: [plainEntry cookie] <:+
        (aliased cookie h).entries := by
      simp [aliased, h0]
    exact (aliased cookie h).after_next hsuffix

/-- There `seekdir` does not come back to the place. -/
theorem not_restores {cookie : UInt64} (h : 2 ^ 32 ≤ cookie.toNat) : ¬ Restores cookie := by
  intro hrestores
  obtain ⟨d₀, d, hopen, hscans, hready, hcookie⟩ := scans_aliased (fun _ => none) cookie h
  obtain ⟨⟨result, errno, d₁⟩, hcall, hout⟩ := hready.returns .refl
    (Nat.le_trans (show 1 ≤ defaultBufferSize by decide) hready.size_le)
  obtain rfl : result = .ok none := hout.result
  obtain ⟨errno', d₂, hagain⟩ := hrestores _ _ d₀ d d hopen hscans hcookie .refl _ _ _ hcall
  have hafter : (aliased cookie h).after (seekdir d (telldir d)).cookie = [plainEntry cookie] := by
    rw [cookie_seekdir_telldir, hcookie, after_aliased]
  obtain ⟨errno'', d₃, hother⟩ := hready.seekdir_returns (telldir d) (by
    rw [hafter]
    exact ⟨d.bufferSize, .refl, Nat.le_trans (show 25 ≤ defaultBufferSize by decide) hready.size_le⟩)
  rw [hafter] at hother
  cases hagain.unique hother

/-- `seekdir` comes back to a place exactly if its cookie has no more than 32
bits. -/
theorem restores_iff (cookie : UInt64) : Restores cookie ↔ cookie.toNat < 2 ^ 32 := by
  constructor
  · intro hrestores
    by_contra hle
    exact not_restores (Nat.le_of_not_lt hle) hrestores
  · intro hlt L stat d₀ d d' hopen hscans hcookie hmore r errno d₁ hcall
    obtain rfl : L.fetch ⟨0, [], 0, defaultBufferSize, 0, 1⟩ = d₀ := Except.ok.inj hopen
    obtain ⟨es, -, hready, -⟩ := scans_ready (L.ready_start stat) hscans
    obtain ⟨es', k, hready', hsize⟩ := scans_ready hready hmore
    obtain ⟨rfl, hserved⟩ := hready.result hcall
    have hsame : (seekdir d' (telldir d)).cookie = d.cookie := by
      rw [cookie_seekdir_telldir, ← UInt64.toNat_inj, toNat_wrapped, hcookie, Nat.mod_eq_of_lt hlt]
    have hserved' := hserved.double (k := k) (Nat.lt_of_lt_of_le (by decide) hready.size_le)
    obtain ⟨errno', d₂, hagain⟩ := hready'.seekdir_returns (telldir d) (by
      rw [hsame, hsize]
      exact hserved')
    rw [hsame] at hagain
    exact ⟨errno', d₂, hagain⟩

/-- In a directory with one entry, whose cookie is 2 ^ 32, `seekdir` comes back
to the start and not to the end. -/
theorem seekdir_telldir_restarts :
    (do
      let env := (aliased (2 ^ 32) (by decide)).env fun _ => none
      let d ← (fdopendir env).toOption
      let (first, d) ← readdir env 3 d
      let (second, _) ← readdir env 3 d
      let (third, _) ← readdir env 3 (seekdir d (telldir d))
      return [first, second, third]) =
    some [.ok (some ⟨1, 4, [0x61]⟩), .ok none, .ok (some ⟨1, 4, [0x61]⟩)] := by
  decide +kernel

end WasiLibc.Directory.Buffer

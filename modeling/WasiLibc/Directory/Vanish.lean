import WasiLibc.Directory.Preview2

/-!
# WasiLibc.Directory.Vanish

Files that disappear while their directory is scanned.

On wasip1 `readdir` skips them, but leaves the `errno` of the lookup behind, so
that at the end of the directory NULL looks like an error.  On wasip2 and
wasip3 it does not skip them at all.
-/

namespace WasiLibc.Directory.Scan

open Wp Errno

variable {D ε : Type}

/-- With errno cleared before each call, the calls of `readdir` return the
entries in order and then NULL without an error, and `scandirat` returns the
same entries.  The calls get as many turns as they need. -/
def Undisturbed (T : Nat → Interface D ε) (entries : List ε) : Prop :=
  ∃ turns dir list, (T turns).opened = .ok dir ∧ Reads (T turns) dir list none ∧
    list.map Prod.fst = entries ∧ ∀ w, ∃ ns w',
      scandirat .plenty (T turns) (.ok ()) (fun _ => true) none (list.length + 1) w =
        .ok (some ns, w') ∧ ns.list.map Name.entry = entries

theorem selected_all (k : Nat) (es : List (ε × Nat)) :
    selected (fun _ => true) k es = es.take k := by
  rw [selected, List.filter_true]

/-- `scandirat` follows `readdir`, as long as there can be pointers to all
entries. -/
theorem undisturbed_iff {T : Nat → Interface D ε} {entries : List ε} :
    Undisturbed T entries ↔ (∃ turns dir list, (T turns).opened = .ok dir ∧
      Reads (T turns) dir list none ∧ list.map Prod.fst = entries) ∧ entries.length ≤ maxLen := by
  constructor
  · rintro ⟨turns, dir, list, hopened, hreads, rfl, hscan⟩
    refine ⟨⟨turns, dir, list, hopened, hreads, rfl⟩, ?_⟩
    obtain ⟨ns, w', hrun, hlist⟩ := hscan World.initial
    obtain ⟨r, w'', hrun', -, hnames, -⟩ := scandirat_plenty (w := World.initial) (fun _ => true)
      hopened hreads (Nat.lt_succ_self _)
    cases hrun.symm.trans hrun'
    have hsame := hlist.symm.trans (hnames ns rfl)
    rw [selected_all] at hsame
    rw [hsame, List.length_map, List.length_take]
    exact Nat.min_le_left _ _
  · rintro ⟨⟨turns, dir, list, hopened, hreads, rfl⟩, hle⟩
    refine ⟨turns, dir, list, hopened, hreads, rfl, fun w => ?_⟩
    rw [List.length_map] at hle
    obtain ⟨r, w', hrun, -, hnames, hsome⟩ := scandirat_plenty (w := w) (fun _ => true)
      hopened hreads (Nat.lt_succ_self _)
    rw [List.filter_true] at hsome
    obtain ⟨ns, rfl⟩ := Option.ne_none_iff_exists'.mp ((hsome hle).mpr rfl)
    refine ⟨ns, w', hrun, ?_⟩
    rw [hnames ns rfl, selected_all, List.take_of_length_le hle]

/-! ## Directories -/

/-- A directory some of whose files have disappeared. -/
inductive Shrinking where
  | preview1 (L : Buffer.RawListing) (stat : List UInt8 → Option Buffer.Stat)
  | preview2 (target : Cursor.Target) (L : Cursor.Listing) (gone : List UInt8 → Bool)
      (empty : Nat → Nat) (joined : Nat → Bool)

/-- The scan gives the files that have not disappeared. -/
def Shrinking.Undisturbed : Shrinking → Prop
  | preview1 L stat => Scan.Undisturbed (Scan.preview1 (L.env stat))
      ((Buffer.survivors stat L.entries).map (Buffer.RawEntry.dirent stat))
  | preview2 target L gone empty joined =>
    Scan.Undisturbed (fun _ => Scan.preview2 target (L.without gone empty joined))
      (Cursor.Listing.elements { L with entries := L.entries.filter fun e => !gone e.name })

/-- On wasip1 the listing can be enumerated, and no file behind the last one
that is returned has disappeared; on wasip2 and wasip3 no file has
disappeared.  There are not more files than pointers in an array. -/
def Shrinking.Harmless : Shrinking → Prop
  | preview1 L stat => Buffer.Enumerable stat Buffer.defaultBufferSize L.entries ∧
      (∀ e ∈ trailing stat L.entries, e.gone stat = false) ∧
      (Buffer.survivors stat L.entries).length ≤ maxLen
  | preview2 _ L gone _ _ => (∀ e ∈ L.entries, gone e.name = false) ∧ L.entries.length + 2 ≤ maxLen

theorem undisturbed_preview1_iff (L : Buffer.RawListing) (stat : List UInt8 → Option Buffer.Stat) :
    (Shrinking.preview1 L stat).Undisturbed ↔ (Shrinking.preview1 L stat).Harmless := by
  have hopened : ∀ turns, (preview1 (L.env stat) turns).opened =
      .ok (L.fetch ⟨0, [], 0, Buffer.defaultBufferSize, 0, 1⟩) := fun _ => rfl
  have hready := L.ready_start stat
  simp only [Shrinking.Undisturbed, Shrinking.Harmless]
  rw [undisturbed_iff, List.length_map, ← and_assoc]
  refine and_congr_left fun _ => ?_
  constructor
  · rintro ⟨turns, dir, list, hdir, hreads, hlist⟩
    obtain rfl := Except.ok.inj ((hopened turns).symm.trans hdir)
    have henum : Buffer.Enumerable stat Buffer.defaultBufferSize L.entries :=
      enumerable_of_reads hreads hready
    refine ⟨henum, ?_⟩
    obtain ⟨turns', list', hreads', -, -⟩ := reads_of_enumerable henum hready rfl
    obtain ⟨-, herrno⟩ := (reads_preview1_mono (Nat.le_max_left turns turns') hreads).unique
      (reads_preview1_mono (Nat.le_max_right turns turns') hreads')
    by_contra hlost
    push Not at hlost
    obtain ⟨e, he, hgone⟩ := hlost
    have hany : ((trailing stat L.entries).any fun e => e.gone stat) = true :=
      List.any_eq_true.mpr ⟨e, he, by simpa using hgone⟩
    rw [hany] at herrno
    cases herrno
  · rintro ⟨henum, hkept⟩
    obtain ⟨turns, list, hreads, hlist, -⟩ := reads_of_enumerable henum hready rfl
    have hany : ((trailing stat L.entries).any fun e => e.gone stat) = false := by
      rw [List.any_eq_false]
      intro e he
      rw [hkept e he]
      exact Bool.false_ne_true
    rw [hany] at hreads
    exact ⟨turns, _, list, hopened turns, hreads, hlist⟩

theorem endErrno_eq_none_iff {L : Cursor.Listing} {gone : List UInt8 → Bool} :
    endErrno L gone = none ↔ ∀ e ∈ L.entries, gone e.name = false := by
  unfold endErrno
  split
  case isTrue hany =>
    obtain ⟨e, he, hgone⟩ := List.any_eq_true.mp hany
    refine ⟨nofun, fun h => ?_⟩
    cases (h e he).symm.trans hgone
  case isFalse hany => simpa using hany

theorem undisturbed_preview2_iff (target : Cursor.Target) (L : Cursor.Listing)
    (gone : List UInt8 → Bool) (empty : Nat → Nat) (joined : Nat → Bool) :
    (Shrinking.preview2 target L gone empty joined).Undisturbed ↔
      (Shrinking.preview2 target L gone empty joined).Harmless := by
  have hinv : Cursor.Inv target L ⟨some 0, true, false, 0, 0, 1, 0⟩ :=
    ⟨Nat.zero_le _, .inr rfl, nofun, nofun⟩
  obtain ⟨list, hreads, hlist, -⟩ := reads_without empty joined gone hinv rfl (Nat.zero_add _)
  rw [List.drop_zero] at hlist
  have hfilter : (∀ e ∈ L.entries, gone e.name = false) →
      (L.entries.filter fun e => !gone e.name) = L.entries := fun hkept =>
    List.filter_eq_self.mpr fun e he => by simp [hkept e he]
  simp only [Shrinking.Undisturbed, Shrinking.Harmless]
  rw [undisturbed_iff]
  constructor
  · rintro ⟨⟨turns, dir, list', hdir, hreads', -⟩, hle⟩
    obtain rfl := Except.ok.inj hdir
    have hkept := endErrno_eq_none_iff.mp (hreads.unique hreads').2
    rw [hfilter hkept, Cursor.Listing.length_elements] at hle
    exact ⟨hkept, hle⟩
  · rintro ⟨hkept, hle⟩
    rw [hfilter hkept, Cursor.Listing.length_elements]
    rw [endErrno_eq_none_iff.mpr hkept] at hreads
    refine ⟨⟨0, _, list, rfl, hreads, ?_⟩, hle⟩
    have htake : (L.entries.takeWhile fun e => !gone e.name) = L.entries :=
      List.takeWhile_eq_self_iff.mpr fun e he => by simp [hkept e he]
    rw [hlist, Cursor.Listing.elementsBefore, htake, ← Nat.add_comm L.entries.length,
      ← L.length_elements, List.take_length]

/-- A scan gives exactly the files that have not disappeared, and ends without
an error, just in the harmless cases. -/
theorem vanishing_undisturbed_iff (s : Shrinking) : s.Undisturbed ↔ s.Harmless := by
  cases s with
  | preview1 L stat => exact undisturbed_preview1_iff L stat
  | preview2 target L gone empty joined =>
    exact undisturbed_preview2_iff target L gone empty joined

/-- The only file of a directory of wasip1 is removed after the directory is
opened: `readdir` returns NULL with `ENOENT`, and `scandirat` fails. -/
theorem scandirat_fails_for_vanished :
    let env := (Buffer.RawListing.mk [⟨1, 0, 4, [0x61], by decide⟩] (by decide)).env fun _ => none
    ((preview1 env 3).readdir ⟨0, Buffer.rawBytes [⟨1, 0, 4, [0x61], by decide⟩], 0, 4096, 25, 1⟩).map
        (fun r => (r.1, r.2.1)) = some (none, some ENOENT) ∧
      (scandirat .plenty (preview1 env 3) (.ok ()) (fun _ => true) none 1 World.initial).toOption.map
        (fun r => r.1.isNone) = some true := by
  decide +kernel

end WasiLibc.Directory.Scan

import WasiLibc.Directory.Results

/-!
# WasiLibc.Directory.Preview1

The entries that `readdir` of wasip1 gives to `scandirat`, and the `errno` that
comes with NULL.

* `reads_of_enumerable` -- they are the ones that are not skipped, and `errno`
  tells whether the last call has looked up an entry that has disappeared;
* `enumerable_of_reads` -- the calls return only if the listing can be
  enumerated;
* `enumerable_of_plain` -- a listing without entries to be skipped always can.
-/

namespace WasiLibc.Directory.Scan

open Errno Buffer

/-- The sizes of the dirent behind each of the names. -/
def rooms : Nat → List (List UInt8) → List Nat
  | _, [] => []
  | size, name :: names =>
    let size := growSize size (nameOffset + name.length + 1)
    size :: rooms size names

/-- The entries behind the last one that is returned. -/
def trailing (stat : List UInt8 → Option Stat) : List RawEntry → List RawEntry
  | [] => []
  | e :: es => if (survivors stat (e :: es)).isEmpty then e :: es else trailing stat es

variable {env : Env} {L : RawListing} {stat : List UInt8 → Option Stat} {es : List RawEntry}
  {d : Dir} {errno : Option Errno}

/-! ## Turns -/

/-- More turns do not change what a call returns. -/
theorem preview1_readdir_mono {turns turns' : Nat} (hle : turns ≤ turns')
    {r : Option Dirent × Option Errno × Dir} (h : (preview1 env turns).readdir d = some r) :
    (preview1 env turns').readdir d = some r := by
  obtain ⟨r', hrun, rfl⟩ := Option.map_eq_some_iff.mp h
  exact Option.map_eq_some_iff.mpr ⟨r', Loop.run_mono hle hrun, rfl⟩

theorem reads_preview1_mono {turns turns' : Nat} (hle : turns ≤ turns')
    {list : List (Dirent × Nat)} (h : Reads (preview1 env turns) d list errno) :
    Reads (preview1 env turns') d list errno := by
  induction h with
  | stop h => exact .stop (preview1_readdir_mono hle h)
  | more h _ ih => exact .more (preview1_readdir_mono hle h) ih

theorem exists_preview1_readdir {r : Except Errno (Option Dirent) × Option Errno × Dir}
    (h : Loop.Ends (turnErrno env) (none, d) r) :
    ∃ turns, (preview1 env turns).readdir d = some (r.1.toOption.join, r.2.1, r.2.2) := by
  obtain ⟨turns, hrun⟩ := Loop.ends_iff_run.mp h
  exact ⟨turns, Option.map_eq_some_iff.mpr ⟨r, hrun, rfl⟩⟩

/-! ## Lists of entries -/

theorem trailing_of_none (h : survivors stat es = []) : trailing stat es = es := by
  cases es with
  | nil => rfl
  | cons e es => rw [trailing, h, List.isEmpty_nil, if_pos rfl]

theorem trailing_behind (h : survivors stat es ≠ []) :
    trailing stat (behind stat es) = trailing stat es := by
  induction es with
  | nil => exact absurd rfl h
  | cons e es ih =>
    rw [trailing, if_neg (by simpa using h)]
    cases hskip : e.skipped stat with
    | true =>
      have hone : ∀ e' ∈ [e], e'.skipped stat = true := by simpa using hskip
      rw [← List.singleton_append, survivors_append hone] at h
      rw [← List.singleton_append, behind_append hone, ih h]
    | false => rw [behind_cons_of_not_skipped hskip]

theorem lost_eq_any (h : survivors stat es = []) : lost stat es = es.any fun e => e.gone stat := by
  have hskip : ∀ e ∈ es, e.skipped stat = true := by simpa [survivors] using h
  have hlost : lost stat (es ++ []) = _ := lost_append hskip
  rw [List.append_nil] at hlost
  rw [hlost]
  exact Bool.or_false _

theorem lost_of_none_gone (h : ∀ e ∈ es, e.gone stat = false) : lost stat es = false := by
  rw [lost, List.any_eq_false]
  intro e he
  rw [h e ((List.takeWhile_sublist _).subset he)]
  exact Bool.false_ne_true

theorem mem_of_mem_behind {e : RawEntry} (h : e ∈ behind stat es) : e ∈ es :=
  (List.dropWhile_sublist _).subset ((List.tail_sublist _).subset h)

theorem not_hollow_of_mem_survivors {e : RawEntry} (h : e ∈ survivors stat es) :
    e.hollow = false := by
  have hskip : e.skipped stat = false := by simpa using (List.mem_filter.mp h).2
  exact (Bool.or_eq_false_iff.mp hskip).1

/-! ## What `scandirat` reads -/

/-- The names of entries. -/
def names (es : List RawEntry) : List (List UInt8) := es.map RawEntry.name

/-- The calls return the entries that are not skipped, and then NULL. -/
theorem reads_of_enumerable {size : Nat} (henum : Enumerable stat size es)
    (h : Ready L stat es d) (hsize : d.bufferSize = size) :
    ∃ turns list, Reads (preview1 (L.env stat) turns) d list
        (if (trailing stat es).any fun e => e.gone stat then some ENOENT else none) ∧
      list.map Prod.fst = (survivors stat es).map (RawEntry.dirent stat) ∧
      ((∀ e ∈ es, e.gone stat = false) →
        list.map Prod.snd = rooms d.direntSize (names (survivors stat es))) := by
  induction henum generalizing d with
  | last hgrown hneed hnone =>
    obtain ⟨r, hends, hout⟩ := h.returns (hsize ▸ hgrown) hneed
    obtain ⟨turns, hread⟩ := exists_preview1_readdir hends
    rw [hout.result, hout.errno, lost_eq_any hnone, hnone] at hread
    rw [trailing_of_none hnone, hnone]
    exact ⟨turns, [], .stop hread, rfl, fun _ => rfl⟩
  | @next size size' es hgrown hneed hsome hrest ih =>
    obtain ⟨r, hends, hout⟩ := h.returns (hsize ▸ hgrown) hneed
    obtain ⟨turns, hread⟩ := exists_preview1_readdir hends
    obtain ⟨turns', list, hreads, hlist, hrooms⟩ := ih hout.ready hout.size
    obtain ⟨e, rest, heq⟩ := List.exists_cons_of_ne_nil hsome
    have hhollow : e.hollow = false := not_hollow_of_mem_survivors (heq ▸ List.mem_cons_self)
    have htail : survivors stat (behind stat es) = rest := by
      rw [survivors_behind, heq, List.tail_cons]
    rw [hout.result, heq] at hread
    rw [trailing_behind hsome] at hreads
    refine ⟨max turns turns', (e.dirent stat, r.2.2.direntSize) :: list,
      .more (preview1_readdir_mono (Nat.le_max_left _ _) hread)
        (reads_preview1_mono (Nat.le_max_right _ _) hreads), ?_, ?_⟩
    · rw [List.map_cons, hlist, htail, heq, List.map_cons]
    · intro hgone
      have hroom := hout.room (lost_of_none_gone hgone)
      rw [heq, List.head?_cons, Option.map_some, Option.getD_some, RawEntry.room, hhollow] at hroom
      rw [List.map_cons, hrooms fun e he => hgone e (mem_of_mem_behind he), htail, heq, hroom]
      rfl

/-- The calls return only if the listing can be enumerated. -/
theorem enumerable_of_reads {turns : Nat} {list : List (Dirent × Nat)}
    (hreads : Reads (preview1 (L.env stat) turns) d list errno) (h : Ready L stat es d) :
    Enumerable stat d.bufferSize es := by
  induction hreads generalizing es with
  | stop hread =>
    obtain ⟨r, hrun, heq⟩ := Option.map_eq_some_iff.mp hread
    have hends : Loop.Ends (turnErrno (L.env stat)) (none, _) r := Loop.ends_iff_run.mpr ⟨_, hrun⟩
    obtain ⟨size, hgrown, hneed⟩ := h.served hends
    obtain ⟨r', hends', hout⟩ := h.returns hgrown hneed
    obtain rfl := hends.unique hends'
    have hnone : (survivors stat es).head?.map (RawEntry.dirent stat) = none := by
      have := congrArg Prod.fst heq
      rw [hout.result] at this
      exact this
    exact .last hgrown hneed (List.head?_eq_none_iff.mp (Option.map_eq_none_iff.mp hnone))
  | more hread _ ih =>
    obtain ⟨r, hrun, heq⟩ := Option.map_eq_some_iff.mp hread
    have hends : Loop.Ends (turnErrno (L.env stat)) (none, _) r := Loop.ends_iff_run.mpr ⟨_, hrun⟩
    obtain ⟨size, hgrown, hneed⟩ := h.served hends
    obtain ⟨r', hends', hout⟩ := h.returns hgrown hneed
    obtain rfl := hends.unique hends'
    have hsome : survivors stat es ≠ [] := by
      intro hnil
      have := congrArg Prod.fst heq
      rw [hout.result, hnil] at this
      cases this
    obtain rfl : r.2.2 = _ := congrArg (fun x => x.2.2) heq
    have hrest := ih hout.ready
    rw [hout.size] at hrest
    exact .next hgrown hneed hsome hrest

/-- A listing without entries to be skipped can be enumerated. -/
theorem enumerable_of_plain {size : Nat} (h : ∀ e ∈ es, e.skipped stat = false)
    (hsize : Header.size ≤ size) : Enumerable stat size es := by
  induction es generalizing size with
  | nil => exact .last .refl (Nat.le_trans (show 1 ≤ Header.size by decide) hsize) rfl
  | cons e es ih =>
    obtain ⟨he, hes⟩ := List.forall_mem_cons.mp h
    have hneed : need stat (e :: es) = e.size := by
      rw [need, he]
      rfl
    have hsome : survivors stat (e :: es) ≠ [] := by
      rw [survivors_cons_of_not_skipped he]
      exact List.cons_ne_nil _ _
    have hbehind : behind stat (e :: es) = es := behind_cons_of_not_skipped he
    by_cases hle : e.size ≤ size
    · exact .next .refl (hneed ▸ hle) hsome (hbehind.symm ▸ ih hes hsize)
    · obtain ⟨hgrow, htarget⟩ := le_growSize (Nat.lt_of_lt_of_le (by decide) hsize) e.size
      have hgrowth : Growth stat (e :: es) size (growSize size e.size) :=
        ⟨[], e, es, rfl, fun _ h => (List.not_mem_nil h).elim, by simpa using hsize, by omega, rfl⟩
      exact .next (.single hgrowth) (hneed ▸ htarget) hsome
        (hbehind.symm ▸ ih hes (Nat.le_trans hsize hgrow))

end WasiLibc.Directory.Scan

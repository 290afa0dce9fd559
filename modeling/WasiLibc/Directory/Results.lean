import WasiLibc.Directory.Scan

/-!
# WasiLibc.Directory.Results

What `scandirat` returns when memory is granted.

The calls of `readdir` give a list of entries and, with NULL, an `errno`:
`Reads`.  `scandirat_plenty` says which copies `scandirat` makes of them, and
what it returns.
-/

namespace WasiLibc.Directory.Scan

open Wp Errno

variable {D ε : Type} {T : Interface D ε}

/-- The entries that calls of `readdir` return, each with the size of the
dirent that holds it, and the `errno` that comes with NULL. -/
inductive Reads (T : Interface D ε) : D → List (ε × Nat) → Option Errno → Prop
  | stop {d d' : D} {errno : Option Errno} (h : T.readdir d = some (none, errno, d')) :
      Reads T d [] errno
  | more {d d' : D} {e : ε} {es : List (ε × Nat)} {errno errno' : Option Errno}
      (h : T.readdir d = some (some e, errno', d')) (hrest : Reads T d' es errno) :
      Reads T d ((e, T.direntSize d') :: es) errno

variable {es : List (ε × Nat)} {errno : Option Errno} {p : Option Nat} {dir : D} {d : Dirp D}
  {ns : Names ε}

theorem Reads.unique {d : D} {es' : List (ε × Nat)} {errno' : Option Errno}
    (h : Reads T d es errno) (h' : Reads T d es' errno') : es = es' ∧ errno = errno' := by
  induction h generalizing es' with
  | stop h =>
    cases h' with
    | stop h' =>
      cases h.symm.trans h'
      exact ⟨rfl, rfl⟩
    | more h' _ => cases h.symm.trans h'
  | more h _ ih =>
    cases h' with
    | stop h' => cases h.symm.trans h'
    | more h' hrest =>
      cases h.symm.trans h'
      obtain ⟨rfl, rfl⟩ := ih hrest
      exact ⟨rfl, rfl⟩

/-! ## Memory -/

/-- Nothing has happened that the caller can see. -/
structure Still (w w' : World) : Prop where
  errno : w'.errno = w.errno
  copies : w'.copies = w.copies

theorem Still.refl (w : World) : Still w w := ⟨rfl, rfl⟩

theorem Still.trans {w w' w'' : World} (h : Still w w') (h' : Still w' w'') : Still w w'' :=
  ⟨h'.errno.trans h.errno, h'.copies.trans h.copies⟩

variable {w : World}

theorem acquire_still {make : Nat → Resource} :
    wp (fun _ => False) (acquire make) (fun _ w' => Still w w') w := by
  simp only [acquire, wp_bind, wp_get, wp_modify, wp_pure]
  exact ⟨rfl, rfl⟩

theorem free_still :
    wp (fun _ => False) (free p) (fun _ w' => Still w w') w := by
  cases p with
  | none => exact .refl w
  | some a => exact wp_modify.mpr ⟨rfl, rfl⟩

theorem malloc_plenty {size : Nat} :
    wp (fun _ => False) (malloc .plenty size) (fun p w' => ∃ a, p = some a ∧ Still w w') w := by
  simp only [malloc, Memory.plenty, wp_bind, wp_get, wp_modify, if_true, wp_pure]
  exact wp_mono acquire_still fun a w' hw' => ⟨a, rfl, hw'.errno, hw'.copies⟩

theorem realloc_plenty {size : Nat} :
    wp (fun _ => False) (realloc .plenty p size) (fun q w' => ∃ a, q = some a ∧ Still w w') w := by
  simp only [realloc, wp_bind]
  refine wp_mono malloc_plenty ?_
  rintro _ w₁ ⟨a, rfl, hw₁⟩
  simp only [wp_bind, wp_pure]
  exact wp_mono free_still fun _ w₂ hw₂ => ⟨a, rfl, hw₁.trans hw₂⟩

theorem renew_still {before after : Nat} :
    wp (fun _ => False) (renew before after p) (fun _ w' => Still w w') w := by
  unfold renew
  split
  case isTrue => exact .refl w
  case isFalse =>
    simp only [wp_bind, wp_pure]
    refine wp_mono acquire_still fun a w₁ hw₁ => ?_
    exact wp_mono free_still fun _ w₂ hw₂ => hw₁.trans hw₂

/-! ## Directory streams -/

theorem fdopendir_plenty {fd : Nat} (hopened : T.opened = .ok dir) :
    wp (fun _ => False) (fdopendir .plenty T fd)
      (fun r w' => (∃ d, r = some d ∧ d.dir = dir) ∧ Still w w') w := by
  have hopen : ∀ dirp buffer w₁, Still w w₁ → wp (fun _ => False) (openDir T fd dirp buffer)
      (fun r w' => (∃ d, r = some d ∧ d.dir = dir) ∧ Still w w') w₁ := by
    intro dirp buffer w₁ h₁
    rw [openDir, hopened]
    exact ⟨⟨_, rfl, rfl⟩, h₁⟩
  simp only [fdopendir, wp_bind]
  refine wp_mono malloc_plenty ?_
  rintro _ w₁ ⟨dirp, rfl, hw₁⟩
  simp only
  rw [wp_ite]
  split
  case isFalse => exact hopen dirp none w₁ hw₁
  case isTrue =>
    simp only [wp_bind]
    refine wp_mono malloc_plenty ?_
    rintro _ w₂ ⟨buffer, rfl, hw₂⟩
    exact hopen dirp _ w₂ (hw₁.trans hw₂)

theorem readdir_eq {de : Option ε}
    (h : T.readdir d.dir = some (de, errno, dir)) :
    wp (fun _ => False) (readdir T d) (fun r w' => r.1 = de ∧ r.2.dir = dir ∧ w'.errno = errno ∧
      w'.copies = w.copies) w := by
  rw [readdir, h]
  simp only [wp_bind, wp_pure]
  refine wp_mono renew_still fun buffer w₁ hw₁ => ?_
  refine wp_mono renew_still fun dirent w₂ hw₂ => ?_
  exact wp_modify.mpr ⟨trivial, trivial, rfl, (hw₁.trans hw₂).copies⟩

theorem closedir_still :
    wp (fun _ => False) (closedir d) (fun _ w' => Still w w') w := by
  simp only [closedir, wp_bind]
  refine wp_mono free_still fun _ w₁ hw₁ => ?_
  refine wp_mono free_still fun _ w₂ hw₂ => ?_
  refine wp_mono free_still fun _ w₃ hw₃ => ?_
  exact wp_modify.mpr (((hw₁.trans hw₂).trans hw₃).trans ⟨rfl, rfl⟩)

/-! ## Names -/

/-- The lengths that the array takes: one less than a power of two. -/
structure Shape (ns : Names ε) : Prop where
  pow : ∃ j ≤ 30, ns.len + 1 = 2 ^ j
  le : ns.list.length ≤ ns.len

theorem makeRoom_plenty (h : Shape ns) (hlt : ns.list.length < maxLen) :
    wp (fun _ => False) (makeRoom .plenty ns) (fun r w' => r.1 = true ∧ r.2.list = ns.list ∧
      Shape r.2 ∧ ns.list.length < r.2.len ∧ Still w w') w := by
  unfold makeRoom
  simp only
  rw [wp_ite]
  split
  case isFalse hroom => exact ⟨rfl, rfl, h, Nat.lt_of_not_le hroom, .refl w⟩
  case isTrue hfull =>
    have hle := h.le
    obtain ⟨j, hj, hlen⟩ := h.pow
    -- the array is full, but not yet of the largest length
    have hj' : j < 30 := by
      by_contra hge
      obtain rfl : j = 30 := by omega
      unfold maxLen at hlt
      omega
    have hpow : 2 ^ (j + 1) ≤ 2 ^ 30 := Nat.pow_le_pow_right (by decide) hj'
    have hnext : 2 * ns.len + 1 + 1 = 2 ^ (j + 1) := by
      rw [Nat.pow_succ, ← hlen]
      omega
    rw [wp_ite, if_neg (by unfold maxLen; omega)]
    simp only [wp_bind]
    refine wp_mono realloc_plenty ?_
    rintro _ w₁ ⟨a, rfl, hw₁⟩
    refine ⟨rfl, rfl, ⟨⟨j + 1, hj', hnext⟩, ?_⟩, ?_, hw₁⟩
    · simp only
      omega
    · simp only
      omega

theorem makeRoom_full (h : Shape ns) (hfull : ns.list.length = maxLen) :
    wp (fun _ => False) (makeRoom .plenty ns)
      (fun r w' => r.1 = false ∧ r.2.list = ns.list ∧ Still w w') w := by
  have hle := h.le
  obtain ⟨j, hj, hlen⟩ := h.pow
  have hpow : 2 ^ j ≤ 2 ^ 30 := Nat.pow_le_pow_right (by decide) hj
  unfold makeRoom
  unfold maxLen at *
  simp only
  rw [wp_ite, if_pos (by omega), wp_ite, if_pos (by omega)]
  exact ⟨rfl, rfl, .refl w⟩

/-- The copy of an entry. -/
def copyOf (T : Interface D ε) (e : ε × Nat) : Copy :=
  ⟨T.name e.1, sizeofDirent + (T.name e.1).length + 1, e.2⟩

theorem addName_plenty {de : ε} (h : Shape ns)
    (hlt : ns.list.length < maxLen) :
    wp (fun _ => False) (addName .plenty T d de ns) (fun r w' => r.1 = true ∧
      r.2.list.map Name.entry = ns.list.map Name.entry ++ [de] ∧ Shape r.2 ∧ w'.errno = w.errno ∧
      w'.copies = w.copies ++ [copyOf T (de, T.direntSize d.dir)]) w := by
  simp only [addName, wp_bind]
  refine wp_mono (makeRoom_plenty h hlt) fun r w₁ hw₁ => ?_
  obtain ⟨room, ns₁⟩ := r
  obtain ⟨hroom, hlist, hshape, hlen, hstill⟩ := hw₁
  simp only at hroom hlist hshape hlen
  rw [hroom, wp_ite, if_pos rfl]
  simp only [wp_bind]
  refine wp_mono malloc_plenty ?_
  rintro _ w₂ ⟨a, rfl, hw₂⟩
  simp only [wp_bind, wp_modify, wp_pure]
  have hstill₂ := hstill.trans hw₂
  refine ⟨trivial, by rw [hlist, List.map_append]; rfl, ⟨hshape.pow, ?_⟩, hstill₂.errno, ?_⟩
  · simp only [hlist, List.length_append, List.length_singleton]
    omega
  · rw [hstill₂.copies]
    rfl

theorem addName_full {de : ε} (h : Shape ns)
    (hfull : ns.list.length = maxLen) :
    wp (fun _ => False) (addName .plenty T d de ns)
      (fun r w' => r.1 = false ∧ r.2.list = ns.list ∧ Still w w') w := by
  simp only [addName, wp_bind]
  refine wp_mono (makeRoom_full h hfull) fun r w₁ hw₁ => ?_
  obtain ⟨room, ns₁⟩ := r
  obtain ⟨hroom, hlist, hstill⟩ := hw₁
  simp only at hroom hlist
  rw [hroom, wp_ite, if_neg Bool.false_ne_true]
  exact ⟨rfl, hlist, hstill⟩

/-! ## Whole scans -/

/-- The selected entries, as many as there can be pointers in the array. -/
def selected (sel : ε → Bool) (k : Nat) (es : List (ε × Nat)) : List (ε × Nat) :=
  (es.filter fun e => sel e.1).take k

theorem scanLoop_plenty {sel : ε → Bool} {n k : Nat} (hreads : Reads T d.dir es errno)
    (h : Shape ns) (hn : es.length < n) (hk : ns.list.length + k = maxLen) :
    wp (fun _ => False) (scanLoop .plenty T sel n d ns) (fun r w' =>
      r.2.list.map Name.entry = ns.list.map Name.entry ++ (selected sel k es).map Prod.fst ∧
        w'.copies = w.copies ++ (selected sel k es).map (copyOf T) ∧
        ((es.filter fun e => sel e.1).length ≤ k → w'.errno = errno)) w := by
  generalize hdir : d.dir = dir at hreads
  induction hreads generalizing w d ns n k with
  | stop hread =>
    subst hdir
    obtain ⟨n, rfl⟩ : ∃ m, n = m + 1 := ⟨n - 1, by omega⟩
    simp only [scanLoop, wp_bind, setErrno, wp_modify]
    refine wp_mono (readdir_eq hread) fun r w₁ hw₁ => ?_
    obtain ⟨de, d₁⟩ := r
    obtain ⟨rfl, -, herrno, hcopies⟩ := hw₁
    simp [selected, herrno, hcopies]
  | @more _ dir e es errno errno' hread hrest ih =>
    subst hdir
    obtain ⟨n, rfl⟩ : ∃ m, n = m + 1 := ⟨n - 1, by rw [List.length_cons] at hn; omega⟩
    rw [List.length_cons, Nat.add_lt_add_iff_right] at hn
    simp only [scanLoop, wp_bind, setErrno, wp_modify]
    refine wp_mono (readdir_eq hread) fun r w₁ hw₁ => ?_
    obtain ⟨de, d₁⟩ := r
    obtain ⟨rfl, hdir, -, hcopies⟩ := hw₁
    simp only at hdir
    simp only
    cases hsel : sel e with
    | false =>
      rw [wp_ite, if_neg (by simp)]
      refine wp_mono (ih h hn hk hdir) fun r w₂ hw₂ => ?_
      simp only [selected, List.filter_cons, hsel] at hw₂ ⊢
      rw [hcopies] at hw₂
      exact hw₂
    | true =>
      rw [wp_ite, if_pos rfl]
      simp only [wp_bind]
      cases k with
      | succ k =>
        refine wp_mono (addName_plenty h (by omega)) fun r w₂ hw₂ => ?_
        obtain ⟨go, ns₂⟩ := r
        obtain ⟨hgo, hlist, hshape, -, hcopies₂⟩ := hw₂
        simp only at hgo hlist hshape
        have hlen : ns₂.list.length = ns.list.length + 1 := by
          have := congrArg List.length hlist
          simpa using this
        have hk₂ : ns₂.list.length + k = maxLen := by omega
        rw [hgo, wp_ite, if_pos rfl]
        refine wp_mono (ih hshape hn hk₂ hdir) fun r w₃ hw₃ => ?_
        simp only [selected, List.filter_cons, hsel, if_true, List.take_succ_cons, List.map_cons,
          List.length_cons, Nat.add_le_add_iff_right] at hw₃ ⊢
        obtain ⟨hlist₃, hcopies₃, herrno⟩ := hw₃
        refine ⟨?_, ?_, herrno⟩
        · rw [hlist₃, hlist, List.append_assoc]
          rfl
        · rw [hcopies₃, hcopies₂, hcopies, hdir, List.append_assoc]
          rfl
      | zero =>
        refine wp_mono (addName_full h hk) fun r w₂ hw₂ => ?_
        obtain ⟨go, ns₂⟩ := r
        obtain ⟨hgo, hlist, hstill⟩ := hw₂
        simp only at hgo hlist
        rw [hgo, wp_ite, if_neg Bool.false_ne_true]
        simp only [wp_pure, selected, List.filter_cons, hsel, hlist, if_true, List.take_zero,
          List.map_nil, List.append_nil, List.length_cons]
        exact ⟨trivial, hstill.copies.trans hcopies, fun hle => absurd hle (by omega)⟩

theorem freeNames_still {ns : List (Name ε)} :
    wp (fun _ => False) (freeNames ns) (fun _ w' => Still w w') w := by
  induction ns with
  | nil => exact .refl w
  | cons n ns ih =>
    simp only [freeNames, wp_bind]
    refine wp_mono ih fun _ w₁ hw₁ => ?_
    exact wp_mono free_still fun _ w₂ hw₂ => hw₁.trans hw₂

theorem finish_unsorted {oldErrno : Option Errno} :
    wp (fun _ => False) (finish oldErrno none ns) (fun r w' =>
      r = (if w.errno = none then some ns else none) ∧ w'.copies = w.copies) w := by
  simp only [finish, wp_bind, wp_get]
  rw [wp_ite]
  split
  case isTrue herrno =>
    simp only [wp_bind, wp_pure]
    refine wp_mono freeNames_still fun _ w₁ hw₁ => ?_
    exact wp_mono free_still fun _ w₂ hw₂ => ⟨trivial, (hw₁.trans hw₂).copies⟩
  case isFalse herrno =>
    have hnone : w.errno = none := by simpa using herrno
    simp only [wp_bind, setErrno, wp_modify, wp_pure]
    exact ⟨(if_pos hnone).symm, trivial⟩

/-- The whole call.  With more entries than there can be pointers in the array
the rest is left out. -/
theorem scandirat_plenty (sel : ε → Bool) {n : Nat} (hopened : T.opened = .ok dir) (hreads : Reads T dir es errno)
    (hn : es.length < n) :
    ∃ r w', scandirat .plenty T (.ok ()) sel none n w = .ok (r, w') ∧
      w'.copies = w.copies ++ (selected sel maxLen es).map (copyOf T) ∧
      (∀ ns, r = some ns → ns.list.map Name.entry = (selected sel maxLen es).map Prod.fst) ∧
      ((es.filter fun e => sel e.1).length ≤ maxLen → (r ≠ none ↔ errno = none)) := by
  refine exists_ok_of_wp ?_
  simp only [scandirat, wp_bind, wp_get]
  refine wp_mono acquire_still fun fd w₁ hw₁ => ?_
  refine wp_mono (fdopendir_plenty hopened) fun r w₂ hw₂ => ?_
  obtain ⟨⟨d, rfl, rfl⟩, hstill⟩ := hw₂
  simp only [wp_bind]
  have hshape : Shape (Names.mk none 0 ([] : List (Name ε))) := ⟨⟨0, by decide, rfl⟩, Nat.le_refl _⟩
  refine wp_mono (scanLoop_plenty hreads hshape hn (Nat.zero_add maxLen)) fun r w₃ hw₃ => ?_
  obtain ⟨d₃, ns⟩ := r
  obtain ⟨hlist, hcopies, herrno⟩ := hw₃
  refine wp_mono closedir_still fun _ w₄ hw₄ => ?_
  refine wp_mono finish_unsorted fun r w₅ hw₅ => ?_
  obtain ⟨hresult, hcopies₅⟩ := hw₅
  refine ⟨?_, ?_, ?_⟩
  · rw [hcopies₅, hw₄.copies, hcopies, (hw₁.trans hstill).copies]
  · rintro ns' rfl
    split at hresult
    · cases hresult
      exact hlist
    · cases hresult
  · intro hle
    rw [hresult, hw₄.errno, herrno hle]
    by_cases hnone : errno = none <;> simp [hnone]

end WasiLibc.Directory.Scan

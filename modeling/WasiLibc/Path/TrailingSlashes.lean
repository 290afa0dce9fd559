import WasiLibc.Path.Chdir

/-!
# WasiLibc.Path.TrailingSlashes

Slashes at the end of a preopen's name.  `prefix_matches` is to ignore them,
but compares all bytes of the name with the path before it does; the name
`/a/` therefore does not cover the path `/a`.

1. `build_rename` follows a registration under another name through the
   table;
2. `findAbspath_of_only` is the search when one entry matches;
3. `trailing_slashes_iff` says which paths a name with `k` more slashes still
   covers, and that these are resolved as before.
-/

namespace WasiLibc.Path

open Errno

/-- `k` slashes. -/
def slashes (k : Nat) : Bytes := List.replicate k slash

/-- The registration of the same directory with `k` slashes behind its
name. -/
def Registration.slashed (r : Registration) (k : Nat) : Registration :=
  { r with relprefix := r.relprefix ++ slashes k }

/-! ## Names -/

theorem stripPrefixes_append_slashes {s : Bytes} (h : stripPrefixes s ≠ []) (k : Nat) :
    stripPrefixes (s ++ slashes k) = stripPrefixes s ++ slashes k := by
  fun_induction stripPrefixes s with
  | case1 => exact absurd rfl h
  | case2 b hb => exact absurd rfl h
  | case3 b hb =>
    rw [not_or] at hb
    cases k with
    | zero => simp [slashes, stripPrefixes, hb]
    | succ k => simp [slashes, List.replicate_succ, stripPrefixes, hb]
  | case4 c path ih => simpa [stripPrefixes] using ih h
  | case5 b c path hb hc ih =>
    obtain ⟨rfl, rfl⟩ := hc
    simpa [stripPrefixes, hb] using ih h
  | case6 b c path hb hc => simp [stripPrefixes, hb, hc]

theorem stripSlashes_slashes_append (k : Nat) (rest : Bytes) :
    stripSlashes (slashes k ++ rest) = stripSlashes rest := by
  induction k with
  | zero => rfl
  | succ k ih =>
    rw [slashes, List.replicate_succ, List.cons_append, stripSlashes_slash]
    exact ih

/-- A name with more slashes matches exactly the paths that have them. -/
theorem matches_append_slashes {s path : Bytes} (hs : s ≠ []) (h : Matches s path) (k : Nat) :
    Matches (s ++ slashes k) path ↔ s ++ slashes k <+: path := by
  have hne : s ++ slashes k ≠ [] := by simp [hs]
  rw [Matches, or_iff_right hne]
  constructor
  · rintro ⟨rest, rfl, -⟩
    exact List.prefix_append _ _
  · rintro ⟨rest, rfl⟩
    refine ⟨rest, rfl, ?_⟩
    cases k with
    | zero =>
      obtain ⟨rest', heq, hb⟩ := h.resolve_left hs
      obtain rfl : rest = rest' := by simpa [slashes] using heq
      simpa [slashes] using hb
    | succ k => exact .inr (.inr (by simp [slashes, List.replicate_succ', ← List.append_assoc]))

/-! ## Registrations under another name -/

/-- What a registration does does not depend on the names, neither on its own
nor on those in the table. -/
theorem internalRegisterPreopenedFd_uniform (t : Table) (r : Registration) :
    ∃ (added : Option { fd : Int // fd ≠ -1 }) (capacity : Nat), ∀ (t' : Table) (name : Bytes),
      t'.preopens.length = t.preopens.length → t'.capacity = t.capacity →
      (internalRegisterPreopenedFd t' { r with relprefix := name }).1 = added.isSome ∧
      (internalRegisterPreopenedFd t' { r with relprefix := name }).2.capacity = capacity ∧
      (internalRegisterPreopenedFd t' { r with relprefix := name }).2.preopens = t'.preopens ++
        (added.map fun fd => (⟨stripPrefixes name, fd.1, fd.2⟩ : Preopen)).toList := by
  obtain ⟨ relprefix, resized, duplicated, fd⟩ := r
  by_cases hfull : t.preopens.length = t.capacity
  · refine ⟨if resized ∧ duplicated then fd else none, if resized then t.resize.capacity
      else t.capacity, fun t' name hlen hcap => ?_⟩
    unfold internalRegisterPreopenedFd
    rw [dif_pos (by omega)]
    cases resized <;> cases duplicated <;> cases fd <;>
      simp [Table.insert, Table.push, Table.resize, hcap]
  · refine ⟨if duplicated then fd else none, t.capacity, fun t' name hlen hcap => ?_⟩
    unfold internalRegisterPreopenedFd
    rw [dif_neg (by omega)]
    cases duplicated <;> cases fd <;> simp [Table.insert, Table.push, hcap]

/-- Later registrations do not depend on the names in the table. -/
theorem foldl_register_uniform (rs : List Registration) {t u : Table}
    (hlen : u.preopens.length = t.preopens.length) (hcap : u.capacity = t.capacity) :
    ∃ newer,
      (rs.foldl (fun t r => (internalRegisterPreopenedFd t r).2) t).preopens =
        t.preopens ++ newer ∧
      (rs.foldl (fun t r => (internalRegisterPreopenedFd t r).2) u).preopens =
        u.preopens ++ newer := by
  induction rs generalizing t u with
  | nil => exact ⟨[], by simp, by simp⟩
  | cons r rs ih =>
    obtain ⟨added, capacity, huniform⟩ := internalRegisterPreopenedFd_uniform t r
    obtain ⟨-, hcap₁, hpre₁⟩ := huniform t r.relprefix rfl rfl
    obtain ⟨-, hcap₂, hpre₂⟩ := huniform u r.relprefix hlen hcap
    obtain ⟨newer, h₁, h₂⟩ := ih (t := (internalRegisterPreopenedFd t r).2)
      (u := (internalRegisterPreopenedFd u r).2)
      (by rw [hpre₁, hpre₂, List.length_append, List.length_append, hlen]) (hcap₂.trans hcap₁.symm)
    refine ⟨(added.map fun fd => (⟨stripPrefixes r.relprefix, fd.1, fd.2⟩ : Preopen)).toList ++ newer,
      ?_, ?_⟩
    · rw [List.foldl_cons, h₁, hpre₁, List.append_assoc]
    · rw [List.foldl_cons, h₂, hpre₂, List.append_assoc]

/-- The table after a successful registration and others, under two names. -/
theorem build_rename {before : List Registration} {r : Registration}
    (hreg : (internalRegisterPreopenedFd (build before) r).1 = true) (after : List Registration)
    (name : Bytes) :
    ∃ (fd : { fd : Int // fd ≠ -1 }) (newer : List Preopen),
      (build (before ++ r :: after)).preopens =
        (build before).preopens ++ ⟨stripPrefixes r.relprefix, fd.1, fd.2⟩ :: newer ∧
      (build (before ++ { r with relprefix := name } :: after)).preopens =
        (build before).preopens ++ ⟨stripPrefixes name, fd.1, fd.2⟩ :: newer := by
  obtain ⟨added, capacity, huniform⟩ := internalRegisterPreopenedFd_uniform (build before) r
  obtain ⟨hok, hcap₁, hpre₁⟩ := huniform (build before) r.relprefix rfl rfl
  obtain ⟨-, hcap₂, hpre₂⟩ := huniform (build before) name rfl rfl
  obtain ⟨fd, rfl⟩ := Option.isSome_iff_exists.mp (hok.symm.trans hreg)
  obtain ⟨newer, h₁, h₂⟩ := foldl_register_uniform after
    (t := (internalRegisterPreopenedFd (build before) r).2)
    (u := (internalRegisterPreopenedFd (build before) { r with relprefix := name }).2)
    (by rw [hpre₁, hpre₂]; simp) (hcap₂.trans hcap₁.symm)
  refine ⟨fd, newer, ?_, ?_⟩
  · rw [build, List.foldl_append, List.foldl_cons]
    refine h₁.trans ?_
    rw [hpre₁]
    simp
  · rw [build, List.foldl_append, List.foldl_cons]
    refine h₂.trans ?_
    rw [hpre₂]
    simp

/-! ## The search with one match -/

/-- The entry at place `i` is the only one that matches. -/
def OnlyMatch (t : Table) (i : Nat) (path : Bytes) : Prop :=
  ∀ j e, t.preopens[j]? = some e → (Matches e.pathPrefix (stripSlashes path) ↔ j = i)

variable {t : Table} {older newer : List Preopen} {pre : Preopen} {path : Bytes}

theorem findAbspath_of_only (ht : t.preopens = older ++ pre :: newer)
    (hothers : ∀ e ∈ older ++ newer, ¬ Matches e.pathPrefix (stripSlashes path))
    (hits : Matches pre.pathPrefix (stripSlashes path)) :
    outcome (findAbspath t path) =
      some (pre.fd, components ((stripSlashes path).drop pre.pathPrefix.length)) := by
  rcases findAbspath_cases t path with ⟨-, hnone⟩ | ⟨best, hbest, hok⟩
  · exact absurd hits (hnone pre (by simp [ht]))
  · obtain rfl : best = pre := by
      have hmem := hbest.mem
      rw [ht, List.mem_append, List.mem_cons] at hmem
      rcases hmem with h | h | h
      · exact absurd hbest.hits (hothers best (List.mem_append_left _ h))
      · exact h
      · exact absurd hbest.hits (hothers best (List.mem_append_right _ h))
    rw [hok]
    simp only [outcome, Except.toOption, Option.map_some, Option.some.injEq, Prod.mk.injEq, true_and]
    split
    case isTrue hnil =>
      rw [← components_stripSlashes (List.drop _ _), hnil]
      rfl
    case isFalse => exact components_stripSlashes _

theorem findAbspath_of_none (hnone : ∀ e ∈ t.preopens, ¬ Matches e.pathPrefix (stripSlashes path)) :
    outcome (findAbspath t path) = none := by
  rcases findAbspath_cases t path with ⟨herr, -⟩ | ⟨best, hbest, -⟩
  · rw [herr]
    rfl
  · exact absurd hbest.hits (hnone best hbest.mem)

/-- A directory is registered with `k` more slashes behind its name, which is
not empty.  A path that only this directory covers is resolved to the same
descriptor and the same components exactly when the path has the slashes
too. -/
theorem trailing_slashes_iff {before : List Registration} {r : Registration}
    (hreg : (internalRegisterPreopenedFd (build before) r).1 = true) (after : List Registration)
    (hname : stripPrefixes r.relprefix ≠ []) (k : Nat) {p : Bytes}
    (honly : OnlyMatch (build (before ++ r :: after)) (build before).preopens.length p) :
    outcome (findAbspath (build (before ++ r.slashed k :: after)) p) =
        outcome (findAbspath (build (before ++ r :: after)) p) ↔
      stripPrefixes r.relprefix ++ slashes k <+: stripSlashes p := by
  obtain ⟨fd, newer, ht, ht'⟩ := build_rename hreg after (r.relprefix ++ slashes k)
  rw [stripPrefixes_append_slashes hname] at ht'
  have hits : Matches (stripPrefixes r.relprefix) (stripSlashes p) :=
    (honly _ ⟨stripPrefixes r.relprefix, fd.1, fd.2⟩ (by simp [ht])).mpr rfl
  have hothers : ∀ e ∈ (build before).preopens ++ newer,
      ¬ Matches e.pathPrefix (stripSlashes p) := by
    intro e he hm
    rcases List.mem_append.mp he with h | h
    · obtain ⟨j, hj, rfl⟩ := List.mem_iff_getElem.mp h
      have := (honly j _ (by rw [ht, List.getElem?_append_left hj, List.getElem?_eq_getElem hj])).mp hm
      omega
    · obtain ⟨j, hj, rfl⟩ := List.mem_iff_getElem.mp h
      have := (honly ((build before).preopens.length + (j + 1)) _ (by
        rw [ht, List.getElem?_append_right (by omega), Nat.add_sub_cancel_left,
          List.getElem?_cons_succ, List.getElem?_eq_getElem hj])).mp hm
      omega
  rw [findAbspath_of_only ht hothers hits, ← matches_append_slashes hname hits]
  constructor
  · intro heq
    by_contra hnot
    have hnone : outcome (findAbspath (build (before ++ r.slashed k :: after)) p) = none := by
      refine findAbspath_of_none fun e he => ?_
      rw [Registration.slashed, ht', List.mem_append, List.mem_cons] at he
      rcases he with h | rfl | h
      · exact hothers e (List.mem_append_left _ h)
      · exact hnot
      · exact hothers e (List.mem_append_right _ h)
    rw [hnone] at heq
    cases heq
  · intro hm
    rw [Registration.slashed, findAbspath_of_only ht' hothers hm]
    -- what follows the slashes are the same components
    obtain ⟨rest, hrest⟩ := (matches_append_slashes hname hits k).mp hm
    have hlong : (stripSlashes p).drop (stripPrefixes r.relprefix ++ slashes k).length = rest := by
      rw [← hrest, List.drop_left]
    have hshort : (stripSlashes p).drop (stripPrefixes r.relprefix).length = slashes k ++ rest := by
      rw [← hrest, List.append_assoc, List.drop_left]
    rw [hlong, hshort, ← components_stripSlashes (slashes k ++ rest), stripSlashes_slashes_append,
      components_stripSlashes]

theorem three_ne_neg_one : (3 : Int) ≠ -1 := by decide

/-- `/a` registered for 3, nothing else. -/
def bare : Registration := ⟨[slash, 0x61], true, true, some ⟨3, three_ne_neg_one⟩⟩

/-- Under the name `/a/` the path `/a/b` is resolved as before. -/
theorem trailing_slashes_below :
    outcome (findAbspath (build ([] ++ bare.slashed 1 :: [])) [slash, 0x61, slash, 0x62]) =
      outcome (findAbspath (build ([] ++ bare :: [])) [slash, 0x61, slash, 0x62]) :=
  (trailing_slashes_iff rfl [] (by decide) 1 (by
    intro j e he
    have hpre : (build ([] ++ bare :: [])).preopens = [⟨[0x61], 3, by decide⟩] := rfl
    rw [hpre] at he
    cases j with
    | zero =>
      cases he
      exact ⟨fun _ => rfl, fun _ => .inr ⟨[slash, 0x62], rfl, .inr (.inl rfl)⟩⟩
    | succ j => cases he)).mpr ⟨[0x62], rfl⟩

/-- The path `/a` names the directory registered as `/a`, but under the name
`/a/` it is not found. -/
theorem trailing_slashes_differ :
    outcome (findAbspath (build [bare]) [slash, 0x61]) = some (3, []) ∧
      findAbspath (build [bare.slashed 1]) [slash, 0x61] = .error ENOENT := by
  decide +kernel

end WasiLibc.Path

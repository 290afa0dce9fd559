import WasiLibc.Directory.Preview2

/-!
# WasiLibc.Directory.Copies

The copies that `scandirat` makes of dirents.

`readdir` makes room for `d_name` at its offset, 9 bytes into the dirent;
`scandirat` copies `sizeof(struct dirent)`, 16 bytes, and the name.  The dirent
has only been doubled until the longest name so far fits, so that the copy may
read beyond it.
-/

namespace WasiLibc.Directory.Scan

open Wp Errno

variable {D ε : Type} {mem : Memory} {T : Interface D ε}

/-- The copy is read from inside the dirent, and has the whole name with its
NUL. -/
def Copy.Sound (c : Copy) : Prop := c.read ≤ c.room ∧ nameOffset + c.name.length + 1 ≤ c.read

/-- All copies that a call makes are sound, whatever memory there is and
whatever is selected. -/
def Safe (T : Interface D ε) : Prop :=
  ∀ mem openat sel cmp n w r w', scandirat mem T openat sel cmp n w = .ok (r, w') →
    ∀ c ∈ w'.copies, c ∈ w.copies ∨ c.Sound

/-! ## Calls that copy nothing -/

/-- The copies stay the same. -/
def CopiesNothing {α : Type} (f : M α) : Prop :=
  ∀ copies, Keeps (fun _ => True) (fun w => w.copies = copies) f

theorem copiesNothing_setErrno (errno : Option Errno) : CopiesNothing (setErrno errno) :=
  fun _ => .modify fun _ h => h

theorem copiesNothing_acquire (make : Nat → Resource) : CopiesNothing (acquire make) :=
  fun _ => .get fun _ _ => .bind (.modify fun _ h => h) fun _ => .pure _

theorem copiesNothing_release (r : Resource) : CopiesNothing (release r) :=
  fun _ => .modify fun _ h => h

theorem copiesNothing_free (p : Option Nat) : CopiesNothing (free p) := by
  cases p with
  | none => exact fun _ => .pure _
  | some a => exact copiesNothing_release (.block a)

theorem copiesNothing_malloc (size : Nat) : CopiesNothing (malloc mem size) := by
  intro copies
  refine .get fun w _ => .bind (.modify fun _ h => h) fun _ => .ite (fun _ => ?_) fun _ => ?_
  · exact .bind (copiesNothing_acquire _ copies) fun _ => .pure _
  · exact .ite (fun _ => .bind (copiesNothing_setErrno _ copies) fun _ => .pure _) fun _ => .pure _

theorem copiesNothing_realloc (p : Option Nat) (size : Nat) :
    CopiesNothing (realloc mem p size) := by
  refine fun copies => .bind (copiesNothing_malloc size copies) fun q => ?_
  cases q with
  | none => exact .pure _
  | some a => exact .bind (copiesNothing_free p copies) fun _ => .pure _

theorem copiesNothing_renew (before after : Nat) (p : Option Nat) :
    CopiesNothing (renew before after p) :=
  fun copies => .ite (fun _ => .pure _) fun _ => .bind (copiesNothing_acquire _ copies) fun _ =>
    .bind (copiesNothing_free p copies) fun _ => .pure _

theorem copiesNothing_closedir (d : Dirp D) : CopiesNothing (closedir d) :=
  fun copies => .bind (copiesNothing_free _ copies) fun _ => .bind (copiesNothing_free _ copies)
    fun _ => .bind (copiesNothing_free _ copies) fun _ => copiesNothing_release _ copies

theorem copiesNothing_freeNames (ns : List (Name ε)) : CopiesNothing (freeNames ns) := by
  induction ns with
  | nil => exact fun _ => .pure _
  | cons n ns ih => exact fun copies => .bind (ih copies) fun _ => copiesNothing_free _ copies

theorem copiesNothing_finish (oldErrno : Option Errno) (cmp : Option (Order ε)) (ns : Names ε) :
    CopiesNothing (finish oldErrno cmp ns) := by
  refine fun copies => .get fun w _ => .ite (fun _ => ?_) fun _ => ?_
  · exact .bind (copiesNothing_freeNames _ copies) fun _ => .bind (copiesNothing_free _ copies)
      fun _ => .pure _
  · refine .bind (copiesNothing_setErrno _ copies) fun _ => ?_
    cases cmp <;> exact .pure _

theorem copiesNothing_makeRoom (ns : Names ε) : CopiesNothing (makeRoom mem ns) := by
  refine fun copies => .ite (fun _ => .ite (fun _ => .pure _) fun _ => ?_) fun _ => .pure _
  refine .bind (copiesNothing_realloc _ _ copies) fun q => ?_
  cases q <;> exact .pure _

/-! ## Calls that copy -/

/-- The calls of `readdir` return these entries, as far as they return. -/
def Follows (T : Interface D ε) : D → List (ε × Nat) → Prop
  | d, [] => ∀ e errno d', T.readdir d ≠ some (some e, errno, d')
  | d, e :: es => ∀ r errno d', T.readdir d = some (r, errno, d') →
      r = some e.1 ∧ T.direntSize d' = e.2 ∧ Follows T d' es

variable {es : List (ε × Nat)} {errno : Option Errno} {d : Dirp D}

theorem Reads.follows {d : D}
    (h : Reads T d es errno) : Follows T d es := by
  induction h with
  | stop h =>
    intro e errno' d' hread
    cases h.symm.trans hread
  | more h _ ih =>
    intro r errno' d' hread
    cases h.symm.trans hread
    exact ⟨rfl, rfl, ih⟩

variable {w : World}

/-- The calls that copy nothing, as a rule. -/
theorem CopiesNothing.rule {α : Type} {f : M α} (h : CopiesNothing f) :
    wp (fun _ => True) f (fun _ w' => w'.copies = w.copies) w :=
  h w.copies w rfl

theorem readdir_rule_copies (h : Follows T d.dir es) :
    wp (fun _ => True) (readdir T d) (fun r w' => w'.copies = w.copies ∧ ∀ e, r.1 = some e →
      ∃ size rest, es = (e, size) :: rest ∧ T.direntSize r.2.dir = size ∧
        Follows T r.2.dir rest) w := by
  unfold readdir
  split
  case h_1 => trivial
  case h_2 de errno dir hread =>
    simp only [wp_bind, wp_pure]
    refine wp_mono (copiesNothing_renew _ _ _).rule fun _ w₁ hw₁ => ?_
    refine wp_mono (copiesNothing_renew _ _ _).rule fun _ w₂ hw₂ => ?_
    refine wp_modify.mpr ⟨hw₂.trans hw₁, ?_⟩
    rintro e rfl
    cases es with
    | nil => exact absurd hread (h e errno dir)
    | cons x rest =>
      obtain ⟨hx, hsize, hrest⟩ := h _ _ _ hread
      obtain rfl := Option.some.inj hx
      exact ⟨x.2, rest, rfl, hsize, hrest⟩

theorem addName_rule_copies {de : ε} {ns : Names ε} :
    wp (fun _ => True) (addName mem T d de ns) (fun _ w' => ∀ c ∈ w'.copies, c ∈ w.copies ∨
      c = copyOf T (de, T.direntSize d.dir)) w := by
  simp only [addName, wp_bind]
  refine wp_mono (copiesNothing_makeRoom ns).rule fun r w₁ hw₁ => ?_
  obtain ⟨room, ns₁⟩ := r
  rw [wp_ite]
  split
  case isFalse =>
    rw [wp_pure, hw₁]
    exact fun c hc => .inl hc
  case isTrue =>
    simp only [wp_bind]
    refine wp_mono (copiesNothing_malloc _).rule fun q w₂ hw₂ => ?_
    rw [hw₁] at hw₂
    cases q with
    | none =>
      rw [wp_pure, hw₂]
      exact fun c hc => .inl hc
    | some a =>
      simp only [wp_bind, wp_modify, wp_pure, hw₂, List.mem_append, List.mem_singleton]
      exact fun c hc => hc

/-- The loop copies only entries that `readdir` returns. -/
theorem scanLoop_rule_copies {sel : ε → Bool} {n : Nat} {ns : Names ε} (h : Follows T d.dir es) :
    wp (fun _ => True) (scanLoop mem T sel n d ns) (fun _ w' => ∀ c ∈ w'.copies, c ∈ w.copies ∨
      ∃ e ∈ es, c = copyOf T e) w := by
  induction n generalizing w d ns es with
  | zero => trivial
  | succ n ih =>
    simp only [scanLoop, wp_bind]
    refine wp_mono (copiesNothing_setErrno none).rule fun _ w₁ hw₁ => ?_
    refine wp_mono (readdir_rule_copies h) fun r w₂ hw₂ => ?_
    obtain ⟨de, d₂⟩ := r
    obtain ⟨hcopies, hnext⟩ := hw₂
    rw [hw₁] at hcopies
    cases de with
    | none =>
      rw [wp_pure, hcopies]
      exact fun c hc => .inl hc
    | some e =>
      obtain ⟨size, rest, rfl, rfl, hrest⟩ := hnext e rfl
      have hlater : ∀ {c : Copy}, (∃ e ∈ rest, c = copyOf T e) →
          ∃ e' ∈ (e, T.direntSize d₂.dir) :: rest, c = copyOf T e' := by
        rintro c ⟨e', he', rfl⟩
        exact ⟨e', List.mem_cons_of_mem _ he', rfl⟩
      simp only
      rw [wp_ite]
      split
      case isFalse =>
        refine wp_mono (ih hrest) fun r w₃ hw₃ c hc => ?_
        rw [hcopies] at hw₃
        exact (hw₃ c hc).imp_right hlater
      case isTrue =>
        simp only [wp_bind]
        refine wp_mono addName_rule_copies fun r w₃ hw₃ => ?_
        obtain ⟨go, ns₃⟩ := r
        rw [hcopies] at hw₃
        have hadded : ∀ c ∈ w₃.copies, c ∈ w.copies ∨
            ∃ e' ∈ (e, T.direntSize d₂.dir) :: rest, c = copyOf T e' := fun c hc =>
          (hw₃ c hc).imp_right fun heq => ⟨_, List.mem_cons_self, heq⟩
        rw [wp_ite]
        split
        case isFalse => exact hadded
        case isTrue =>
          refine wp_mono (ih hrest) fun r w₄ hw₄ c hc => ?_
          rcases hw₄ c hc with hc | hc
          · exact hadded c hc
          · exact .inr (hlater hc)

theorem fdopendir_rule_dir {fd : Nat} :
    wp (fun _ => True) (fdopendir mem T fd) (fun r w' => w'.copies = w.copies ∧
      ∀ d, r = some d → T.opened = .ok d.dir) w := by
  have hopen : ∀ dirp buffer w₁, w₁.copies = w.copies →
      wp (fun _ => True) (openDir T fd dirp buffer) (fun r w' => w'.copies = w.copies ∧
        ∀ d, r = some d → T.opened = .ok d.dir) w₁ := by
    intro dirp buffer w₁ hw₁
    unfold openDir
    cases hopened : T.opened with
    | error e =>
      simp only [wp_bind]
      refine wp_mono (copiesNothing_free buffer).rule fun _ w₂ hw₂ => ?_
      refine wp_mono (copiesNothing_free (some dirp)).rule fun _ w₃ hw₃ => ?_
      exact wp_modify.mpr ⟨hw₃.trans (hw₂.trans hw₁), by simp⟩
    | ok dir =>
      refine ⟨hw₁, ?_⟩
      rintro d ⟨⟩
      rfl
  simp only [fdopendir, wp_bind]
  refine wp_mono (copiesNothing_malloc _).rule fun p w₁ hw₁ => ?_
  cases p with
  | none => exact ⟨hw₁, by simp⟩
  | some dirp =>
    simp only
    rw [wp_ite]
    split
    case isFalse => exact hopen dirp none w₁ hw₁
    case isTrue =>
      simp only [wp_bind]
      refine wp_mono (copiesNothing_malloc _).rule fun q w₂ hw₂ => ?_
      cases q with
      | none =>
        simp only [wp_bind]
        exact wp_mono (copiesNothing_free (some dirp)).rule fun _ w₃ hw₃ =>
          ⟨hw₃.trans (hw₂.trans hw₁), by simp⟩
      | some buffer => exact hopen dirp (some buffer) w₂ (hw₂.trans hw₁)

/-- If every copy of an entry is sound, all copies that a call makes are. -/
theorem safe_of_follows {dir : D} (hopened : T.opened = .ok dir)
    (h : Follows T dir es) (hsound : ∀ e ∈ es, (copyOf T e).Sound) : Safe T := by
  intro mem openat sel cmp n w r w' hrun
  have hwp : wp (fun _ => True) (scandirat mem T openat sel cmp n)
      (fun _ w' => ∀ c ∈ w'.copies, c ∈ w.copies ∨ ∃ e ∈ es, c = copyOf T e) w := by
    cases openat with
    | error e =>
      simp only [scandirat, wp_bind, wp_pure]
      exact wp_modify.mpr fun c hc => .inl hc
    | ok u =>
      simp only [scandirat, wp_bind, wp_get]
      refine wp_mono (copiesNothing_acquire _).rule fun fd w₁ hw₁ => ?_
      refine wp_mono fdopendir_rule_dir fun r w₂ hw₂ => ?_
      obtain ⟨hcopies, hdir⟩ := hw₂
      rw [hw₁] at hcopies
      cases r with
      | none =>
        rw [wp_pure, hcopies]
        exact fun c hc => .inl hc
      | some d =>
        have heq : dir = d.dir := Except.ok.inj (hopened.symm.trans (hdir d rfl))
        simp only [wp_bind]
        refine wp_mono (scanLoop_rule_copies (heq ▸ h)) fun r w₃ hw₃ => ?_
        rw [hcopies] at hw₃
        refine wp_mono (copiesNothing_closedir r.1).rule fun _ w₄ hw₄ => ?_
        refine wp_mono (copiesNothing_finish _ cmp r.2).rule fun _ w₅ hw₅ => ?_
        rw [hw₅, hw₄]
        exact hw₃
  intro c hc
  rcases post_of_wp hwp hrun c hc with hc | ⟨e, he, rfl⟩
  · exact .inl hc
  · exact .inr (hsound e he)

/-- An entry is copied when only its name is selected. -/
theorem sound_of_safe {dir : D} {front rest : List (ε × Nat)} {e : ε × Nat} (hsafe : Safe T) (hopened : T.opened = .ok dir)
    (hreads : Reads T dir (front ++ e :: rest) errno)
    (hfirst : ∀ x ∈ front, T.name x.1 ≠ T.name e.1) : (copyOf T e).Sound := by
  obtain ⟨r, w', hrun, hcopies, -, -⟩ := scandirat_plenty (w := World.initial)
    (fun x => decide (T.name x = T.name e.1)) hopened hreads (Nat.lt_succ_self _)
  have hfront : (front.filter fun x => decide (T.name x.1 = T.name e.1)) = [] := by
    rw [List.filter_eq_nil_iff]
    intro x hx
    simp [hfirst x hx]
  have hmem : copyOf T e ∈ w'.copies := by
    obtain ⟨k, hk⟩ : ∃ k, maxLen = k + 1 := ⟨maxLen - 1, by unfold maxLen; omega⟩
    rw [hcopies, selected, List.filter_append, hfront, hk]
    simp [World.initial]
  rcases hsafe _ _ _ _ _ _ _ _ hrun _ hmem with hold | hsound
  · exact absurd hold List.not_mem_nil
  · exact hsound

/-! ## Names -/

/-- Each of the names has room in the dirent for the bytes that are copied. -/
def Fits : Nat → List (List UInt8) → Prop
  | _, [] => True
  | size, name :: names =>
    let size := growSize size (nameOffset + name.length + 1)
    sizeofDirent + name.length + 1 ≤ size ∧ Fits size names

instance decidableFits : (size : Nat) → (names : List (List UInt8)) → Decidable (Fits size names)
  | _, [] => isTrue trivial
  | _, _ :: names => @instDecidableAnd _ _ _ (decidableFits _ names)

theorem copy_sound_iff (T : Interface D ε) (e : ε × Nat) :
    (copyOf T e).Sound ↔ sizeofDirent + (T.name e.1).length + 1 ≤ e.2 := by
  unfold Copy.Sound copyOf sizeofDirent nameOffset
  simp only
  omega

section Fitting

variable {names : List (List UInt8)} {es : List (ε × Nat)} {size : Nat}

theorem le_of_mem_rooms {room : Nat} (hpos : 0 < size) (h : room ∈ rooms size names) :
    size ≤ room := by
  induction names generalizing size with
  | nil => cases h
  | cons name names ih =>
    have hgrow := (le_growSize hpos (nameOffset + name.length + 1)).1
    rcases List.mem_cons.mp h with rfl | h
    · exact hgrow
    · exact Nat.le_trans hgrow (ih (Nat.lt_of_lt_of_le hpos hgrow) h)

theorem sound_of_fits (hfits : Fits size names) (hnames : (es.map fun e => T.name e.1) = names)
    (hrooms : es.map Prod.snd = rooms size names) : ∀ e ∈ es, (copyOf T e).Sound := by
  induction es generalizing size names with
  | nil => exact fun e he => absurd he List.not_mem_nil
  | cons e es ih =>
    subst hnames
    obtain ⟨hroom, hrest⟩ := List.cons.inj hrooms
    intro x hx
    rcases List.mem_cons.mp hx with rfl | hx
    · rw [copy_sound_iff, hroom]
      exact hfits.1
    · exact ih hfits.2 rfl hrest x hx

/-- It is enough to look at the first entry with each name, since the dirent
never gets smaller. -/
theorem fits_of_sound (hpos : 0 < size) (hnames : (es.map fun e => T.name e.1) = names)
    (hrooms : es.map Prod.snd = rooms size names)
    (hsound : ∀ front e rest, es = front ++ e :: rest →
      (∀ x ∈ front, T.name x.1 ≠ T.name e.1) → (copyOf T e).Sound) : Fits size names := by
  induction es generalizing size names with
  | nil =>
    subst hnames
    trivial
  | cons e es ih =>
    subst hnames
    obtain ⟨hroom, hrest⟩ := List.cons.inj hrooms
    simp only at hroom
    have hgrow := (le_growSize hpos (nameOffset + (T.name e.1).length + 1)).1
    have hfirst : (copyOf T e).Sound :=
      hsound [] e es rfl fun x hx => absurd hx List.not_mem_nil
    rw [copy_sound_iff] at hfirst
    refine ⟨hroom ▸ hfirst, ih (Nat.lt_of_lt_of_le hpos hgrow) rfl hrest ?_⟩
    intro front x rest heq hfront
    by_cases hname : T.name e.1 = T.name x.1
    · have hmem : x.2 ∈ es.map Prod.snd :=
        List.mem_map_of_mem (heq ▸ List.mem_append_right front List.mem_cons_self)
      rw [hrest] at hmem
      have hle := le_of_mem_rooms (Nat.lt_of_lt_of_le hpos hgrow) hmem
      rw [copy_sound_iff, ← hname]
      omega
    · refine hsound (e :: front) x rest (by rw [heq]; rfl) fun y hy => ?_
      rcases List.mem_cons.mp hy with rfl | hy
      · exact hname
      · exact hfront y hy

theorem safe_iff_fits {dir : D} {errno : Option Errno} (hopened : T.opened = .ok dir)
    (hreads : Reads T dir es errno) (hnames : (es.map fun e => T.name e.1) = names)
    (hrooms : es.map Prod.snd = rooms 1 names) : Safe T ↔ Fits 1 names := by
  constructor
  · intro hsafe
    refine fits_of_sound Nat.one_pos hnames hrooms fun front e rest heq hfirst => ?_
    exact sound_of_safe hsafe hopened (heq ▸ hreads) hfirst
  · intro hfits
    exact safe_of_follows hopened hreads.follows (sound_of_fits hfits hnames hrooms)

end Fitting

/-! ## Directories -/

/-- A directory of some target, with a host that serves it. -/
inductive Source where
  | preview1 (L : Buffer.Listing) (stat : List UInt8 → Buffer.Stat)
  | preview2 (target : Cursor.Target) (L : Cursor.Listing) (empty : Nat → Nat)
      (joined : Nat → Bool)

/-- The names that `readdir` returns. -/
def Source.names : Source → List (List UInt8)
  | preview1 L _ => L.entries.map Buffer.Entry.name
  | preview2 _ L _ _ => L.elements.map Cursor.Dirent.dName

/-- All copies of a scan of the directory are sound. -/
def Source.Safe : Source → Prop
  | preview1 L stat => ∀ turns, Scan.Safe (Scan.preview1 (L.env stat) turns)
  | preview2 target L empty joined => Scan.Safe (Scan.preview2 target (L.env empty joined))

/-- With fewer turns there are fewer calls that return, but no others. -/
theorem follows_preview1 {env : Buffer.Env} {turns : Nat} {d : Buffer.Dir}
    {list : List (Buffer.Dirent × Nat)}
    (h : Reads (preview1 env turns) d list errno) (fewer : Nat) :
    Follows (preview1 env fewer) d list := by
  have hsame : ∀ {d d' : Buffer.Dir} {r r' : Option Buffer.Dirent} {errno errno' : Option Errno}
      {d'' : Buffer.Dir}, (preview1 env turns).readdir d = some (r, errno, d') →
      (preview1 env fewer).readdir d = some (r', errno', d'') → r' = r ∧ d'' = d' := by
    intro d d' r r' errno errno' d'' h h'
    have heq := (preview1_readdir_mono (Nat.le_max_left turns fewer) h).symm.trans
      (preview1_readdir_mono (Nat.le_max_right turns fewer) h')
    cases heq
    exact ⟨rfl, rfl⟩
  induction h with
  | stop h =>
    intro e errno' d' hread
    cases (hsame h hread).1
  | more h _ ih =>
    intro r errno' d' hread
    obtain ⟨rfl, rfl⟩ := hsame h hread
    exact ⟨rfl, rfl, ih⟩

theorem safe_preview1_iff (L : Buffer.Listing) (stat : List UInt8 → Buffer.Stat) :
    (Source.preview1 L stat).Safe ↔ Fits 1 (Source.preview1 L stat).names := by
  have hplain : ∀ e ∈ L.raw.entries, e.skipped (fun name => some (stat name)) = false := by
    intro e he
    obtain ⟨e, -, rfl⟩ := List.mem_map.mp he
    exact e.raw_not_skipped stat
  have hgone : ∀ e ∈ L.raw.entries, e.gone (fun name => some (stat name)) = false := fun e he =>
    (Bool.or_eq_false_iff.mp (hplain e he)).2
  have hsurvivors : Buffer.survivors (fun name => some (stat name)) L.raw.entries = L.raw.entries := by
    rw [Buffer.survivors, List.filter_eq_self]
    intro e he
    simp [hplain e he]
  obtain ⟨turns, list, hreads, hlist, hrooms⟩ := reads_of_enumerable
    (enumerable_of_plain hplain (show 24 ≤ 4096 by decide)) (L.raw.ready_start fun name => some (stat name)) rfl
  have hrooms := hrooms hgone
  rw [hsurvivors] at hlist hrooms
  rw [Buffer.env_raw] at hreads
  have hopened : ∀ turns, (preview1 (L.env stat) turns).opened =
      .ok (L.raw.fetch ⟨0, [], 0, Buffer.defaultBufferSize, 0, 1⟩) := by
    intro turns
    rw [← Buffer.env_raw]
    rfl
  have hnames : (list.map fun e => e.1.dName) = (Source.preview1 L stat).names := by
    have hmap := congrArg (List.map Buffer.Dirent.dName) hlist
    rw [List.map_map, List.map_map] at hmap
    refine Eq.trans hmap ?_
    simp only [Function.comp_def, Buffer.RawEntry.dName_dirent, Source.names, Buffer.Listing.raw,
      List.map_map]
    rfl
  have hsame : names L.raw.entries = (Source.preview1 L stat).names := by
    rw [names, Buffer.Listing.raw, List.map_map]
    rfl
  constructor
  · intro hsafe
    exact (safe_iff_fits (hopened turns) hreads hnames (hsame ▸ hrooms)).mp (hsafe turns)
  · intro hfits turns'
    exact safe_of_follows (hopened turns') (follows_preview1 hreads turns')
      (sound_of_fits hfits hnames (hsame ▸ hrooms))

theorem safe_preview2_iff (target : Cursor.Target) (L : Cursor.Listing) (empty : Nat → Nat)
    (joined : Nat → Bool) : (Source.preview2 target L empty joined).Safe ↔
      Fits 1 (Source.preview2 target L empty joined).names := by
  have hwithout : L.without (fun _ => false) empty joined = L.env empty joined := rfl
  have hall : L.elementsBefore (fun _ => false) = L.elements := by
    have htake : (L.entries.takeWhile fun _ => !false) = L.entries :=
      List.takeWhile_eq_self_iff.mpr fun _ _ => rfl
    rw [Cursor.Listing.elementsBefore, htake, ← Nat.add_comm L.entries.length,
      ← L.length_elements, List.take_length]
  have hinv : Cursor.Inv target L ⟨some 0, true, false, 0, 0, 1, 0⟩ :=
    ⟨Nat.zero_le _, .inr rfl, (by simp), by simp⟩
  obtain ⟨list, hreads, hlist, hrooms⟩ := reads_without empty joined (fun _ => false) hinv rfl
    (Nat.zero_add _)
  rw [hwithout] at hreads
  rw [hall, List.drop_zero] at hlist hrooms
  refine safe_iff_fits rfl hreads ?_ hrooms
  have hmap := congrArg (List.map Cursor.Dirent.dName) hlist
  rw [List.map_map] at hmap
  exact hmap

/-- All copies that `scandirat` makes are sound exactly if the names of the
directory fit, with the padding of `struct dirent`, into the room that
`readdir` makes for the names without it. -/
theorem scandirat_copies_iff (s : Source) : s.Safe ↔ Fits 1 s.names := by
  cases s with
  | preview1 L stat => exact safe_preview1_iff L stat
  | preview2 target L empty joined => exact safe_preview2_iff target L empty joined

/-- The first entry of wasip2 and wasip3 is `.`: 18 bytes are copied from a
dirent of 16. -/
theorem scandirat_reads_beyond :
    ((scandirat .plenty (preview2 .wasip2 ((Cursor.Listing.mk [] 0 fun _ => 0).env (fun _ => 0)
        fun _ => false)) (.ok ()) (fun _ => true) none 3 World.initial).toOption.map
      fun r => r.2.copies.head?) = some (some ⟨[0x2E], 18, 16⟩) := by
  decide +kernel

end WasiLibc.Directory.Scan

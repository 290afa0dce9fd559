import WasiLibc.Directory.Preview1

/-!
# WasiLibc.Directory.Preview2

The entries that `readdir` of wasip2 and wasip3 gives to `scandirat`, when some
of them disappear before their metadata is read.

Here the call for an entry that has disappeared fails with `ENOENT`, and
`scandirat` takes this for the end of the directory: `reads_without`.
-/

namespace WasiLibc.Directory.Cursor

open Errno

variable {target : Target} {L : Listing} {d d' : Dir} {env : Env}
  (empty : Nat → Nat) (joined : Nat → Bool)

/-- The host when the names with `gone` have disappeared. -/
def Listing.without (L : Listing) (gone : List UInt8 → Bool) (empty : Nat → Nat)
    (joined : Nat → Bool) : Env :=
  { L.env empty joined with
    metadataHashAt := fun name => if gone name then .error ENOENT else .ok (L.hashAt name) }

/-! ## The size of the dirent -/

theorem direntSize_grow {len : Nat} (h : grow env d len = some d') :
    d'.direntSize = growSize d.direntSize (nameOffset + len + 1) := by
  unfold grow at h
  simp only at h
  split at h
  case isTrue =>
    split at h
    · cases h
      rfl
    · cases h
  case isFalse hge =>
    cases h
    rw [growSize, if_neg (by omega)]

theorem direntSize_readLoop (env : Env) (pos n : Nat) (d : Dir) :
    (readLoop env pos n d).2.direntSize = d.direntSize := by
  induction n generalizing d with
  | succ n ih => exact ih _
  | zero =>
    unfold readLoop
    simp only
    split
    · rfl
    · split
      · split <;> rfl
      · rfl

theorem direntSize_nextEntry (target : Target) (env : Env) (pos : Nat) (d : Dir) :
    (nextEntry target env pos d).2.direntSize = d.direntSize := by
  cases target with
  | wasip2 =>
    unfold nextEntry nextEntry2
    simp only
    split <;> rfl
  | wasip3 =>
    unfold nextEntry nextEntry3
    simp only
    split
    · rfl
    · exact direntSize_readLoop _ _ _ _

theorem direntSize_ensure (h : ensureHasDirectoryStream env d = .ok d') :
    d'.direntSize = d.direntSize := by
  unfold ensureHasDirectoryStream at h
  simp only [bind, Except.bind] at h
  split at h
  · cases h
  · split at h
    · cases h
      rfl
    · split at h
      · cases h
      · cases h
        rfl

/-- The dirent is as large as the name needs. -/
theorem direntSize_readdirNext {e : Dirent} (h : readdirNext target env d = (.ok (some e), d')) :
    d'.direntSize = growSize d.direntSize (nameOffset + e.dName.length + 1) := by
  unfold readdirNext at h
  split at h
  case h_1 => cases h
  case h_2 d₁ hensure =>
    rw [← direntSize_ensure hensure]
    split at h
    case isTrue =>
      simp only at h
      split at h
      case h_1 => cases h
      case h_2 d₂ hgrow =>
        split at h
        case h_1 => cases h
        case h_2 =>
          have hroom := direntSize_grow hgrow
          cases h
          exact hroom
    case isFalse =>
      split at h
      case isTrue =>
        simp only at h
        split at h
        case h_1 => cases h
        case h_2 d₂ hgrow =>
          have hroom := direntSize_grow hgrow
          cases h
          exact hroom
      case isFalse =>
        have hsize := direntSize_nextEntry target env (d₁.stream.getD 0) d₁
        split at h
        case h_1 => cases h
        case h_2 => cases h
        case h_3 entry d₂ hnext =>
          rw [hnext] at hsize
          unfold yieldEntry at h
          split at h
          case h_1 => cases h
          case h_2 d₃ hgrow =>
            split at h
            case h_1 => cases h
            case h_2 =>
              have hroom := direntSize_grow hgrow
              rw [show d₂.direntSize = d₁.direntSize from hsize] at hroom
              cases h
              exact hroom

/-! ## Entries that have disappeared -/

variable {gone : List UInt8 → Bool}

/-- The elements before the first entry that has disappeared. -/
def Listing.elementsBefore (L : Listing) (gone : List UInt8 → Bool) : List Dirent :=
  L.elements.take (2 + (L.entries.takeWhile fun e => !gone e.name).length)

theorem nextEntry_without (pos : Nat) (d : Dir) :
    nextEntry target (L.without gone empty joined) pos d =
      nextEntry target (L.env empty joined) pos d := by
  have hloop : ∀ n d, readLoop (L.without gone empty joined) pos n d =
      readLoop (L.env empty joined) pos n d := by
    intro n
    induction n with
    | succ n ih => exact fun d => ih _
    | zero => exact fun d => rfl
  cases target with
  | wasip2 => rfl
  | wasip3 =>
    unfold nextEntry nextEntry3
    simp only [hloop]
    rfl

/-- Only the lookup of the metadata can go otherwise. -/
theorem readdirNext_without (gone : List UInt8 → Bool) (h : Inv target L d) :
    (∃ e d', 2 ≤ d.offset ∧ L.entries[d.offset - 2]? = some e ∧ gone e.name = true ∧
        readdirNext target (L.without gone empty joined) d = (.error ENOENT, d')) ∨
      (∀ e, 2 ≤ d.offset → L.entries[d.offset - 2]? = some e → gone e.name = false) ∧
        readdirNext target (L.without gone empty joined) d =
          readdirNext target (L.env empty joined) d := by
  obtain ⟨d₁, hensure, h₁, hstream, hoffset, -⟩ := ensure_env empty joined h
  have hensure' : ensureHasDirectoryStream (L.without gone empty joined) d = .ok d₁ := hensure
  rw [← hoffset] at hstream ⊢
  unfold readdirNext
  rw [hensure, hensure']
  simp only
  by_cases hzero : d₁.offset = 0
  · rw [if_pos hzero, if_pos hzero]
    exact .inr ⟨fun e hle => absurd hle (by omega), rfl⟩
  by_cases hone : d₁.offset = 1
  · rw [if_neg hzero, if_neg hzero, if_pos hone, if_pos hone]
    exact .inr ⟨fun e hle => absurd hle (by omega), rfl⟩
  obtain ⟨d₂, hnext, -⟩ := nextEntry_env empty joined h₁ (by omega) hstream
  rw [if_neg hzero, if_neg hzero, if_neg hone, if_neg hone, hstream, Option.getD_some,
    nextEntry_without, hnext]
  cases he : L.entries[d₁.offset - 2]? with
  | none => exact .inr ⟨fun e _ heq => (by cases heq), rfl⟩
  | some e =>
    obtain ⟨d₃, hgrow, -⟩ := grow_env L empty joined d₂ e.name.length
    have hgrow' : grow (L.without gone empty joined) d₂ e.name.length = some d₃ := hgrow
    simp only [yieldEntry, hgrow, hgrow']
    cases hgone : gone e.name with
    | true =>
      refine .inl ⟨e, d₃, by omega, rfl, hgone, ?_⟩
      simp only [Listing.without, hgone, if_true]
    | false =>
      refine .inr ⟨fun e' _ heq => ?_, ?_⟩
      · cases heq
        exact hgone
      · simp only [Listing.without, hgone]
        rfl

end WasiLibc.Directory.Cursor

namespace WasiLibc.Directory.Scan

open Errno Cursor

variable {target : Target} {L : Listing} {d : Dir} (empty : Nat → Nat) (joined : Nat → Bool)
  {gone : List UInt8 → Bool}

theorem readdir_of_noskip {env : Env} (h : d.skip = 0) :
    Cursor.readdir target env d = readdirNext target env d := by
  rw [Cursor.readdir, h]
  rfl

theorem length_elementsBefore (L : Listing) (gone : List UInt8 → Bool) :
    (L.elementsBefore gone).length = 2 + (L.entries.takeWhile fun e => !gone e.name).length := by
  have hle := (List.takeWhile_sublist (fun e : Cursor.Entry => !gone e.name) (l := L.entries)).length_le
  rw [Listing.elementsBefore, List.length_take, L.length_elements]
  omega

/-- The entries in front of the first one that has disappeared have not. -/
theorem not_gone_of_lt {es : List Cursor.Entry} {i : Nat} {e : Cursor.Entry}
    (hlt : i < (es.takeWhile fun e => !gone e.name).length) (he : es[i]? = some e) :
    gone e.name = false := by
  induction es generalizing i with
  | nil => cases he
  | cons a es ih =>
    cases ha : gone a.name with
    | true =>
      rw [List.takeWhile_cons_of_neg (by simp [ha])] at hlt
      cases hlt
    | false =>
      rw [List.takeWhile_cons_of_pos (by simp [ha]), List.length_cons] at hlt
      cases i with
      | zero =>
        obtain rfl : a = e := by simpa using he
        exact ha
      | succ i => exact ih (Nat.lt_of_succ_lt_succ hlt) (by simpa using he)

/-- The first entry that has disappeared. -/
theorem gone_at_length {es : List Cursor.Entry} {e : Cursor.Entry}
    (he : es[(es.takeWhile fun e => !gone e.name).length]? = some e) : gone e.name = true := by
  induction es with
  | nil => cases he
  | cons a es ih =>
    cases ha : gone a.name with
    | true =>
      rw [List.takeWhile_cons_of_neg (by simp [ha])] at he
      obtain rfl : a = e := by simpa using he
      exact ha
    | false =>
      rw [List.takeWhile_cons_of_pos (by simp [ha]), List.length_cons] at he
      exact ih (by simpa using he)

/-- The `errno` with which the scan ends. -/
def endErrno (L : Listing) (gone : List UInt8 → Bool) : Option Errno :=
  if L.entries.any fun e => gone e.name then some ENOENT else none

/-- The call behind the last element that is read. -/
theorem readdirNext_last (h : Inv target L d)
    (hoffset : d.offset = (L.elementsBefore gone).length) :
    ∃ d', readdirNext target (L.without gone empty joined) d =
      ((endErrno L gone).elim (.ok none) .error, d') := by
  rw [length_elementsBefore] at hoffset
  have hpos : d.offset - 2 = (L.entries.takeWhile fun e => !gone e.name).length := by omega
  rcases readdirNext_without empty joined gone h with
    ⟨e, d', -, he, hgone, hcall⟩ | ⟨hkept, hcall⟩
  · have hany : (L.entries.any fun e => gone e.name) = true :=
      List.any_eq_true.mpr ⟨e, List.mem_of_getElem? he, hgone⟩
    exact ⟨d', by rw [hcall, endErrno, hany]; rfl⟩
  · have hnone : L.entries[d.offset - 2]? = none := by
      by_contra hsome
      obtain ⟨e, he⟩ := Option.ne_none_iff_exists'.mp hsome
      have hkeep := hkept e (by omega) he
      rw [hpos] at he
      cases hkeep.symm.trans (gone_at_length he)
    have hge := List.getElem?_eq_none_iff.mp hnone
    have hall : (L.entries.any fun e => gone e.name) = false := by
      rw [List.any_eq_false]
      intro e he
      obtain ⟨i, hi⟩ := List.getElem?_of_mem he
      obtain ⟨hlt, -⟩ := List.getElem?_eq_some_iff.mp hi
      have hkeep : gone e.name = false := not_gone_of_lt (by omega) hi
      rw [hkeep]
      exact Bool.false_ne_true
    obtain ⟨d', hread, -⟩ := readdirNext_env empty joined h
    have hend : L.elements[d.offset]? = none :=
      List.getElem?_eq_none_iff.mpr (by rw [L.length_elements]; omega)
    exact ⟨d', by rw [hcall, hread, hend, endErrno, hall]; rfl⟩

/-- A call before that returns the element at its place. -/
theorem readdirNext_before (gone : List UInt8 → Bool) (h : Inv target L d)
    (hlt : d.offset < (L.elementsBefore gone).length) :
    ∃ e d', (L.elementsBefore gone)[d.offset]? = some e ∧
      readdirNext target (L.without gone empty joined) d = (.ok (some e), d') ∧
      Inv target L d' ∧ d'.skip = d.skip ∧ d'.offset = d.offset + 1 := by
  have hle := hlt
  rw [length_elementsBefore] at hlt
  have htake := (List.takeWhile_sublist (fun e : Cursor.Entry => !gone e.name) (l := L.entries)).length_le
  have hin : d.offset < L.elements.length := by
    rw [L.length_elements]
    omega
  obtain ⟨d', hread, hinv, hskip, hoffset⟩ := readdirNext_env empty joined h
  rw [List.getElem?_eq_getElem hin] at hread
  rw [if_pos hin] at hoffset
  refine ⟨L.elements[d.offset], d', ?_, ?_, hinv, hskip, hoffset⟩
  · rw [Listing.elementsBefore, List.getElem?_take_of_lt hlt, List.getElem?_eq_getElem hin]
  · rcases readdirNext_without empty joined gone h with
      ⟨e, -, htwo, he, hgone, -⟩ | ⟨-, hcall⟩
    · cases (not_gone_of_lt (by omega) he).symm.trans hgone
    · rw [hcall, hread]

/-- What `scandirat` reads: all elements before the first entry that has
disappeared, and then an error. -/
theorem reads_without {k : Nat} (gone : List UInt8 → Bool) (h : Inv target L d) (hskip : d.skip = 0)
    (hk : d.offset + k = (L.elementsBefore gone).length) :
    ∃ list, Reads (preview2 target (L.without gone empty joined)) d list (endErrno L gone) ∧
      list.map Prod.fst = (L.elementsBefore gone).drop d.offset ∧
      list.map Prod.snd =
        rooms d.direntSize (((L.elementsBefore gone).drop d.offset).map Dirent.dName) := by
  induction k generalizing d with
  | zero =>
    obtain ⟨d', hcall⟩ := readdirNext_last empty joined h hk
    have hread : (preview2 target (L.without gone empty joined)).readdir d =
        some (none, endErrno L gone, d') := by
      simp only [preview2, readdir_of_noskip hskip, hcall]
      cases endErrno L gone <;> rfl
    refine ⟨[], .stop hread, ?_⟩
    rw [List.drop_of_length_le (by omega)]
    exact ⟨rfl, rfl⟩
  | succ k ih =>
    obtain ⟨e, d', he, hcall, hinv, hskip', hoffset⟩ :=
      readdirNext_before empty joined gone h (by omega)
    obtain ⟨list, hreads, hlist, hrooms⟩ := ih hinv (hskip'.trans hskip) (by omega)
    obtain ⟨hlt, rfl⟩ := List.getElem?_eq_some_iff.mp he
    have hread : (preview2 target (L.without gone empty joined)).readdir d =
        some (some (L.elementsBefore gone)[d.offset], none, d') := by
      simp only [preview2, readdir_of_noskip hskip, hcall]
    rw [hoffset] at hlist hrooms
    refine ⟨_, .more hread hreads, ?_, ?_⟩
    · rw [List.drop_eq_getElem_cons hlt, List.map_cons, hlist]
    · rw [List.drop_eq_getElem_cons hlt, List.map_cons, List.map_cons, hrooms]
      simp only [rooms, preview2, direntSize_readdirNext hcall]

end WasiLibc.Directory.Scan

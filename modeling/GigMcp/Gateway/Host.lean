import GigMcp.Store.Schema

/-!
# The profile host's shared state

The fields of `ProfileHost` that `h.mu` guards, and the four critical sections
that touch them.  A section is a function on the whole state: the lock makes it
atomic, and what a goroutine does between two sections is up to the scheduler.

* `enter` opens `getOrCreate`: return a stored runtime, wait for the build in
  flight, or claim the slot.
* `commit` ends a build.  A builder that finds the map gone abandons its runtime
  and runs its cleanups while still holding the lock, so those cleanups belong
  to the section.
* `take` is the section of `Invalidate` and `takeAll` that of `Close`.
-/

namespace GigMcp.Gateway

open GigMcp.Data

/-- A running sandbox: the session a successful spawn returned and the identity
it was spawned for. -/
structure EgressBackend where
  id : Nat
  server : String
  tenant : String
deriving DecidableEq

/-- A tool of the aggregating server: its name there, and the backend and the
name a call is forwarded to. -/
structure AggTool where
  name : String
  backend : String
  session : EgressBackend
  upstream : String
deriving DecidableEq

/-- One profile's live aggregator and sandbox cleanups. -/
structure ProfileRuntime where
  tools : List AggTool
  cleanups : List EgressBackend
deriving DecidableEq

/-- The fields `h.mu` guards.  `runtimes` is `none` while the map is nil: before
the first request, and from `Close` on. -/
structure Host where
  closed : Bool
  runtimes : Option (Table (Prod.fst : Int64 × ProfileRuntime → Int64))
  building : Table (Prod.fst : Int64 × Nat → Int64)
  nextChan : Nat
  closedChans : List Nat

namespace Host

/-- A host no request has reached yet. -/
def fresh : Host where
  closed := false
  runtimes := none
  building := .empty
  nextChan := 0
  closedChans := []

/-- The runtimes, a nil map reading as an empty one. -/
def stored (h : Host) : Table (Prod.fst : Int64 × ProfileRuntime → Int64) :=
  h.runtimes.getD .empty

/-- The runtime stored for a profile. -/
def runtimeOf (h : Host) (pid : Int64) : Option ProfileRuntime :=
  (h.stored.get? pid).map Prod.snd

end Host

/-- `errProfileHostClosed`. -/
def errProfileHostClosed : Err := .new "profile host closed"

/-- How `getOrCreate` leaves its first section. -/
inductive Entry
  | closed
  | warm (rt : ProfileRuntime)
  | inflight (ch : Nat)
  | claimed (ch : Nat)
deriving DecidableEq

namespace Host

/-- The section that opens `getOrCreate`. -/
def enter (h : Host) (pid : Int64) : Entry × Host :=
  if h.closed then (.closed, h)
  else
    match h.runtimeOf pid with
    | some rt => (.warm rt, { h with runtimes := some h.stored })
    | none =>
        match h.building.get? pid with
        | some (_, ch) => (.inflight ch, { h with runtimes := some h.stored })
        | none =>
            (.claimed h.nextChan,
              { h with
                runtimes := some h.stored
                building := h.building.upsert (pid, h.nextChan) (fun s ↦ (s.1, h.nextChan))
                  fun _ ↦ rfl
                nextChan := h.nextChan + 1 })

/-- The section that ends a build: the outcome, and the backends whose cleanups
it ran. -/
def commit (h : Host) (pid : Int64) :
    Except Err ProfileRuntime → (Except Err ProfileRuntime × List EgressBackend) × Host
  | .error e => ((.error e, []), { h with building := h.building.deleteWhere (·.1 = pid) })
  | .ok rt =>
      match h.runtimes with
      | none =>
          ((.error errProfileHostClosed, rt.cleanups),
            { h with building := h.building.deleteWhere (·.1 = pid) })
      | some rts =>
          ((.ok rt, []),
            { h with
              building := h.building.deleteWhere (·.1 = pid)
              runtimes := some (rts.upsert (pid, rt) (fun s ↦ (s.1, rt)) fun _ ↦ rfl) })

/-- `close(ch)`. -/
def closeChan (h : Host) (ch : Nat) : Host := { h with closedChans := ch :: h.closedChans }

/-- The section of `Invalidate`. -/
def take (h : Host) (pid : Int64) : Option ProfileRuntime × Host :=
  (h.runtimeOf pid, { h with runtimes := h.runtimes.map (·.deleteWhere (·.1 = pid)) })

/-- The section of `Close`. -/
def takeAll (h : Host) : List ProfileRuntime × Host :=
  (h.stored.rows.map Prod.snd, { h with runtimes := none, closed := true })

/-! ### What the sections do -/

/-- How `getOrCreate` leaves its first section, and what it leaves behind. -/
theorem enter_cases (h : Host) (pid : Int64) :
    (h.closed = true ∧ h.enter pid = (.closed, h)) ∨
    (h.closed = false ∧ ∃ rt, h.runtimeOf pid = some rt ∧
      h.enter pid = (.warm rt, { h with runtimes := some h.stored })) ∨
    (h.closed = false ∧ ∃ ch, h.enter pid = (.inflight ch, { h with runtimes := some h.stored })) ∨
    (h.closed = false ∧ h.runtimeOf pid = none ∧ h.building.get? pid = none ∧
      h.enter pid = (.claimed h.nextChan,
        { h with
          runtimes := some h.stored
          building := h.building.upsert (pid, h.nextChan) (fun s ↦ (s.1, h.nextChan)) fun _ ↦ rfl
          nextChan := h.nextChan + 1 })) := by
  unfold enter
  split
  · rename_i hclosed
    exact .inl ⟨hclosed, rfl⟩
  · rename_i hclosed
    rw [Bool.not_eq_true] at hclosed
    split
    · rename_i rt hrt
      exact .inr (.inl ⟨hclosed, rt, hrt, rfl⟩)
    · rename_i hrt
      split
      · exact .inr (.inr (.inl ⟨hclosed, _, rfl⟩))
      · rename_i hbuilding
        exact .inr (.inr (.inr ⟨hclosed, hrt, hbuilding, rfl⟩))

/-- Who is sent to wait waits for the channel of the entry. -/
theorem building_of_inflight {h : Host} {pid : Int64} {ch : Nat}
    (he : (h.enter pid).1 = .inflight ch) : h.building.get? pid = some (pid, ch) := by
  unfold enter at he
  split at he
  · cases he
  · split at he
    · cases he
    · split at he
      · rename_i q ch' hbuilding
        obtain rfl : q = pid := Table.key_of_get? hbuilding
        obtain rfl := Entry.inflight.inj he
        exact hbuilding
      · cases he

@[simp] theorem building_commit (h : Host) (pid : Int64) (built : Except Err ProfileRuntime) :
    (h.commit pid built).2.building = h.building.deleteWhere (·.1 = pid) := by
  unfold commit
  split
  · rfl
  · split
    · rfl
    · rfl

@[simp] theorem closed_commit (h : Host) (pid : Int64) (built : Except Err ProfileRuntime) :
    (h.commit pid built).2.closed = h.closed := by
  unfold commit
  split
  · rfl
  · split
    · rfl
    · rfl

@[simp] theorem nextChan_commit (h : Host) (pid : Int64) (built : Except Err ProfileRuntime) :
    (h.commit pid built).2.nextChan = h.nextChan := by
  unfold commit
  split
  · rfl
  · split
    · rfl
    · rfl

@[simp] theorem closedChans_commit (h : Host) (pid : Int64) (built : Except Err ProfileRuntime) :
    (h.commit pid built).2.closedChans = h.closedChans := by
  unfold commit
  split
  · rfl
  · split
    · rfl
    · rfl

/-- What a commit does with the map: nothing, or the runtime is stored. -/
theorem commit_cases (h : Host) (pid : Int64) (built : Except Err ProfileRuntime) :
    ((∃ e, built = .error e) ∧ (h.commit pid built).2.runtimes = h.runtimes ∧
      (h.commit pid built).1.2 = []) ∨
    (∃ rt, built = .ok rt ∧ h.runtimes = none ∧ (h.commit pid built).2.runtimes = none ∧
      (h.commit pid built).1.2 = rt.cleanups) ∨
    ∃ rt rts, built = .ok rt ∧ h.runtimes = some rts ∧
      (h.commit pid built).2.runtimes =
        some (rts.upsert (pid, rt) (fun s ↦ (s.1, rt)) fun _ ↦ rfl) ∧
      (h.commit pid built).1.2 = [] := by
  cases built with
  | error e => exact .inl ⟨⟨e, rfl⟩, rfl, rfl⟩
  | ok rt =>
      cases hrts : h.runtimes with
      | none => simp [commit, hrts]
      | some rts => simp [commit, hrts]

/-- A runtime that is stored after a commit was stored before, or is the one built. -/
theorem runtimeOf_commit {h : Host} {pid q : Int64} {built : Except Err ProfileRuntime}
    {rt : ProfileRuntime} (hrt : (h.commit pid built).2.runtimeOf q = some rt) :
    h.runtimeOf q = some rt ∨ (q = pid ∧ built = .ok rt) := by
  rcases h.commit_cases pid built with ⟨-, hrts, -⟩ | ⟨-, -, -, hrts, -⟩ |
    ⟨rt', rts, rfl, hsome, hrts, -⟩
  · left
    simpa only [runtimeOf, stored, hrts] using hrt
  · simp [runtimeOf, stored, hrts] at hrt
  · simp only [runtimeOf, stored, hrts, Option.getD_some, Table.get?_upsert] at hrt
    by_cases hq : q = pid
    · subst hq
      right
      cases hget : rts.get? q with
      | none => simpa [hget] using hrt
      | some s => simpa [hget] using hrt
    · left
      rw [if_neg hq] at hrt
      simpa only [runtimeOf, stored, hsome, Option.getD_some] using hrt

@[simp] theorem runtimeOf_take (h : Host) (pid q : Int64) :
    (h.take pid).2.runtimeOf q = if q = pid then none else h.runtimeOf q := by
  have hstored : (h.take pid).2.stored = h.stored.deleteWhere (·.1 = pid) := by
    simp only [stored, take]
    cases h.runtimes with
    | none => rfl
    | some rts => rfl
  rw [runtimeOf, hstored, Table.get?_deleteWhere]
  cases hq : h.stored.get? q with
  | none => simp [runtimeOf, hq]
  | some s =>
      obtain rfl : s.1 = q := Table.key_of_get? hq
      by_cases hpid : s.1 = pid
      · simp [hpid, Option.filter]
      · simp [hpid, runtimeOf, hq, Option.filter]

end Host

end GigMcp.Gateway

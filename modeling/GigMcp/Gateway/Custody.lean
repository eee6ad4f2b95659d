import GigMcp.Gateway.Conduct
import Mathlib.Data.Multiset.Bind
import Mathlib.Tactic.Abel

/-!
# Who has to clean a backend up

Every backend a spawn has returned is at any time in exactly one place: its
cleanup has been run, the runtime that holds it is stored, or a thread has it in
hand.  `Custody` says so, together with what keeps it true across the lock
sections: a profile's slot in `building` is claimed by exactly one thread, no
runtime is stored for a profile while its slot is claimed, and after `Close` there
is no map to store one in.

`custody` is the discipline.  A thread that builds commits exactly the backends
it has spawned, or has cleaned up all of them before it commits an error; a thread
that takes a runtime out of the map runs all of its cleanups.
-/

namespace GigMcp.Gateway

open GigMcp.Effect GigMcp.System GigMcp.Store GigMcp.Data

/-- The backends of the stored runtimes. -/
def Host.keeps (h : Host) : Multiset EgressBackend :=
  (h.stored.rows.flatMap fun s ↦ s.2.cleanups : List EgressBackend)

/-- The backends threads have in hand. -/
def inHand (gs : Multiset (Job × Record)) : Multiset EgressBackend :=
  gs.bind fun t ↦ (t.2.held : Multiset EgressBackend)

/-- How many threads have claimed the slot of a profile. -/
def claims (gs : Multiset (Job × Record)) (pid : Int64) : Nat :=
  gs.countP fun t ↦ t.2.claim = some pid

@[simp] theorem inHand_cons (t : Job × Record) (gs : Multiset (Job × Record)) :
    inHand (t ::ₘ gs) = t.2.held + inHand gs := Multiset.cons_bind _ _ _

@[simp] theorem claims_cons (t : Job × Record) (gs : Multiset (Job × Record)) (pid : Int64) :
    claims (t ::ₘ gs) pid = claims gs pid + if t.2.claim = some pid then 1 else 0 :=
  Multiset.countP_cons _ _ _

theorem claims_pos {gs : Multiset (Job × Record)} {t : Job × Record} {pid : Int64} (ht : t ∈ gs)
    (h : t.2.claim = some pid) : 0 < claims gs pid :=
  Multiset.countP_pos.mpr ⟨t, ht, h⟩

theorem mem_inHand {gs : Multiset (Job × Record)} {b : EgressBackend} :
    b ∈ inHand gs ↔ ∃ t ∈ gs, b ∈ t.2.held := by
  simp only [inHand, Multiset.mem_bind, Multiset.mem_coe]

/-! ## The backends of the stored runtimes -/

namespace Host

theorem mem_keeps {h : Host} {b : EgressBackend} :
    b ∈ h.keeps ↔ ∃ pid rt, h.runtimeOf pid = some rt ∧ b ∈ rt.cleanups := by
  simp only [keeps, Multiset.mem_coe, List.mem_flatMap, runtimeOf]
  constructor
  · rintro ⟨s, hs, hb⟩
    exact ⟨s.1, s.2, by rw [Table.get?_of_mem hs]; rfl, hb⟩
  · rintro ⟨pid, rt, hrt, hb⟩
    obtain ⟨s, hs, rfl⟩ := Option.map_eq_some_iff.mp hrt
    exact ⟨s, Table.mem_of_get? hs, hb⟩

theorem keeps_congr {h h' : Host} (hs : h'.stored = h.stored) : h'.keeps = h.keeps := by
  rw [keeps, hs, keeps]

theorem runtimeOf_congr {h h' : Host} (hs : h'.stored = h.stored) (pid : Int64) :
    h'.runtimeOf pid = h.runtimeOf pid := by
  rw [runtimeOf, hs, runtimeOf]

/-- Taking a runtime out of the map takes its backends out. -/
theorem keeps_take {h : Host} {pid : Int64} {rt : ProfileRuntime}
    (hrt : h.runtimeOf pid = some rt) :
    h.keeps = rt.cleanups + (h.take pid).2.keeps := by
  obtain ⟨s, hs, rfl⟩ := Option.map_eq_some_iff.mp hrt
  have hstored : (h.take pid).2.stored = h.stored.deleteWhere (·.1 = pid) := by
    simp only [stored, take]
    cases h.runtimes with
    | none => rfl
    | some rts => rfl
  rw [keeps, keeps, hstored, Multiset.coe_add, Multiset.coe_eq_coe]
  exact (Table.rows_perm_of_get? hs).flatMap_right _

/-- Taking nothing out of the map leaves it as it was. -/
theorem stored_take_of_none {h : Host} {pid : Int64} (hrt : h.runtimeOf pid = none) :
    (h.take pid).2.stored = h.stored := by
  have hnone : h.stored.get? pid = none := Option.map_eq_none_iff.mp hrt
  have hsame : h.stored.deleteWhere (·.1 = pid) = h.stored := by
    refine Table.deleteWhere_eq_self _ fun s hs ↦ ?_
    simpa using Table.get?_eq_none.mp hnone s hs
  simp only [stored, take] at hsame ⊢
  cases hrts : h.runtimes with
  | none => rfl
  | some rts => simpa [hrts] using hsame

@[simp] theorem keeps_of_runtimes_none {h : Host} (hn : h.runtimes = none) : h.keeps = 0 := by
  simp [keeps, stored, hn]

/-- Storing a runtime for a profile that has none adds its backends. -/
theorem keeps_commit {h : Host} {pid : Int64} {rt : ProfileRuntime}
    {rts : Table (Prod.fst : Int64 × ProfileRuntime → Int64)} (hrts : h.runtimes = some rts)
    (hnone : h.runtimeOf pid = none) :
    (h.commit pid (.ok rt)).2.keeps = h.keeps + rt.cleanups := by
  have hget : rts.get? (pid, rt).1 = none := by
    simpa [runtimeOf, stored, hrts] using hnone
  simp [keeps, stored, commit, hrts, Table.rows_upsert_of_get?_none hget]

end Host

/-! ## The invariant -/

/-- What a thread may owe.  Only a job for a profile claims that profile's slot, and
what it then has in hand was spawned for the profile; a job that tears nothing down
has something in hand only while it builds. -/
structure Owes (j : Job) (g : Record) : Prop where
  builder : ∀ pid, g.claim = some pid →
    j.builds = some pid ∧ ∀ b ∈ g.held, b.tenant = formatInt pid
  idle : ¬ j.TearsDown → g.claim = none → g.held = []

theorem Record.Idle.owes {g : Record} (h : g.Idle) (j : Job) : Owes j g where
  builder := by
    intro pid hpid
    rw [h.1] at hpid
    cases hpid
  idle := fun _ _ ↦ h.2

/-- The invariant of the profile host. -/
structure Custody (w : World) (gs : Multiset (Job × Record)) : Prop where
  /-- Each backend is in one place. -/
  balance : (w.spawned : Multiset EgressBackend) = w.cleaned + w.host.keeps + inHand gs
  nodup : w.spawned.Nodup
  ids : ∀ b ∈ w.spawned, b.id < w.spawned.length
  /-- A slot is claimed by one thread. -/
  slots : ∀ pid, claims gs pid = if (w.host.building.get? pid).isSome then 1 else 0
  /-- No runtime is stored while a slot is claimed. -/
  vacant : ∀ pid, (w.host.building.get? pid).isSome → w.host.runtimeOf pid = none
  closed : w.host.closed = true → w.host.runtimes = none
  shut : ∀ t ∈ gs, t.2.shut = true → w.host.closed = true
  /-- A profile's runtime holds backends spawned for the profile. -/
  tenants : ∀ pid rt, w.host.runtimeOf pid = some rt → ∀ b ∈ rt.cleanups, b.tenant = formatInt pid
  owes : ∀ t ∈ gs, Owes t.1 t.2

namespace Custody

variable {w w' : World} {j : Job} {g g' : Record} {gs : Multiset (Job × Record)}

/-- A claimed slot is in `building`. -/
theorem building_of_claim (h : Custody w gs) {t : Job × Record} (ht : t ∈ gs) {pid : Int64}
    (hclaim : t.2.claim = some pid) : (w.host.building.get? pid).isSome := by
  by_contra hb
  have hpos := claims_pos ht hclaim
  rw [h.slots pid, if_neg hb] at hpos
  exact absurd hpos (Nat.lt_irrefl 0)

/-- The invariant of a pool in which one thread's record has changed, from what
concerns that thread and the shared state. -/
theorem of_record (h : Custody w ((j, g) ::ₘ gs))
    (hbalance : (w'.spawned : Multiset EgressBackend) =
      w'.cleaned + w'.host.keeps + (g'.held + inHand gs))
    (hspawned : w'.spawned = w.spawned)
    (hslots : ∀ pid, claims gs pid + (if g'.claim = some pid then 1 else 0) =
      if (w'.host.building.get? pid).isSome then 1 else 0)
    (hvacant : ∀ pid, (w'.host.building.get? pid).isSome → w'.host.runtimeOf pid = none)
    (hclosed : w'.host.closed = true → w'.host.runtimes = none)
    (hopen : w.host.closed = true → w'.host.closed = true)
    (hshut : g'.shut = true → w'.host.closed = true)
    (htenants : ∀ pid rt, w'.host.runtimeOf pid = some rt →
      ∀ b ∈ rt.cleanups, b.tenant = formatInt pid)
    (howes : Owes j g') : Custody w' ((j, g') ::ₘ gs) where
  balance := by rw [hbalance, inHand_cons]
  nodup := hspawned ▸ h.nodup
  ids := hspawned ▸ h.ids
  slots := by
    intro pid
    rw [claims_cons]
    exact hslots pid
  vacant := hvacant
  closed := hclosed
  shut := by
    intro t ht hs
    rcases Multiset.mem_cons.mp ht with rfl | ht
    · exact hshut hs
    · exact hopen (h.shut t (Multiset.mem_cons_of_mem ht) hs)
  tenants := htenants
  owes := by
    intro t ht
    rcases Multiset.mem_cons.mp ht with rfl | ht
    · exact howes
    · exact h.owes t (Multiset.mem_cons_of_mem ht)

theorem balance_cons (h : Custody w ((j, g) ::ₘ gs)) :
    (w.spawned : Multiset EgressBackend) = w.cleaned + w.host.keeps + (g.held + inHand gs) := by
  rw [h.balance, inHand_cons]

theorem slots_cons (h : Custody w ((j, g) ::ₘ gs)) (pid : Int64) :
    claims gs pid + (if g.claim = some pid then 1 else 0) =
      if (w.host.building.get? pid).isSome then 1 else 0 := by
  rw [← h.slots pid, claims_cons]

theorem owes_head (h : Custody w ((j, g) ::ₘ gs)) : Owes j g := h.owes _ (Multiset.mem_cons_self ..)

/-- A call that leaves the host and the backends alone, and what its thread owes. -/
theorem quiet (h : Custody w ((j, g) ::ₘ gs)) (hhost : w'.host = w.host)
    (hspawned : w'.spawned = w.spawned) (hcleaned : w'.cleaned = w.cleaned)
    (hclaim : g'.claim = g.claim) (hheld : g'.held = g.held) (hshut : g'.shut = g.shut) :
    Custody w' ((j, g') ::ₘ gs) := by
  have howes := h.owes_head
  refine h.of_record ?_ hspawned ?_ ?_ ?_ ?_ ?_ ?_ ⟨?_, ?_⟩
  · rw [hspawned, hcleaned, hhost, hheld]
    exact h.balance_cons
  · rw [hhost, hclaim]
    exact h.slots_cons
  · rw [hhost]
    exact h.vacant
  · rw [hhost]
    exact h.closed
  · rw [hhost]
    exact id
  · rw [hhost, hshut]
    exact h.shut _ (Multiset.mem_cons_self ..)
  · rw [hhost]
    exact h.tenants
  · rw [hclaim, hheld]
    exact howes.builder
  · rw [hclaim, hheld]
    exact howes.idle

/-! ### The sections of the lock -/

/-- `getOrCreate` leaves its first section without a claim. -/
theorem opened (h : Custody w ((j, g) ::ₘ gs)) (hclosed : w.host.closed = false) :
    Custody { w with host := { w.host with runtimes := some w.host.stored } }
      ((j, g) ::ₘ gs) := by
  refine h.of_record h.balance_cons rfl h.slots_cons h.vacant ?_ id
    (h.shut _ (Multiset.mem_cons_self ..)) h.tenants h.owes_head
  intro hc
  rw [hclosed] at hc
  cases hc

theorem enter (h : Custody w ((j, g) ::ₘ gs)) {pid : Int64} (hj : j.builds = some pid)
    (hg : g.Idle) :
    Custody { w with host := (w.host.enter pid).2 }
      ((j, Record.track (.enter pid) g (w.host.enter pid).1) ::ₘ gs) := by
  rcases w.host.enter_cases pid with ⟨-, he⟩ | ⟨hclosed, rt, -, he⟩ | ⟨hclosed, ch, he⟩ |
    ⟨hclosed, hrt, hbuilding, he⟩
  · rw [he]
    exact h
  · rw [he]
    exact h.opened hclosed
  · rw [he]
    exact h.opened hclosed
  · rw [he]
    -- The slot was free, so the claim is the only one.
    refine h.of_record h.balance_cons rfl ?_ ?_ ?_ id ?_ h.tenants ⟨?_, ?_⟩
    · intro q
      have hq := h.slots_cons q
      rw [hg.1, if_neg (by simp), Nat.add_zero] at hq
      simp only [Record.track, Table.get?_upsert, Option.some.injEq]
      by_cases hpid : q = pid
      · subst hpid
        rw [hq, hbuilding]
        simp
      · rw [if_neg (Ne.symm hpid), if_neg hpid, Nat.add_zero, hq]
    · intro q hq
      simp only [Table.get?_upsert] at hq
      by_cases hpid : q = pid
      · subst hpid
        exact hrt
      · rw [if_neg hpid] at hq
        exact h.vacant q hq
    · intro hc
      simp only [hclosed, Bool.false_eq_true] at hc
    · exact h.shut _ (Multiset.mem_cons_self ..)
    · intro q hq
      obtain rfl := Option.some.inj hq
      refine ⟨hj, fun b hb ↦ ?_⟩
      have hheld : b ∈ g.held := hb
      rw [hg.2] at hheld
      cases hheld
    · intro _ hnone
      cases hnone

/-- The slot's claim is given back, whatever becomes of the runtime. -/
theorem slots_commit (h : Custody w ((j, g) ::ₘ gs)) {pid : Int64} (hg : g.claim = some pid)
    (built : Except Err ProfileRuntime) (q : Int64) :
    claims gs q + (if none = some q then 1 else 0) =
      if ((w.host.commit pid built).2.building.get? q).isSome then 1 else 0 := by
  have hq := h.slots_cons q
  rw [Host.building_commit, Table.get?_deleteWhere]
  rw [hg] at hq
  by_cases hpid : q = pid
  · subst hpid
    have hle : claims gs q + 1 ≤ 1 := by
      rw [if_pos rfl] at hq
      rw [hq]
      split
      · exact le_refl _
      · exact Nat.zero_le _
    have hzero : claims gs q = 0 := by omega
    cases hget : w.host.building.get? q with
    | none => simp [hzero]
    | some s =>
        have hs : s.1 = q := Table.key_of_get? hget
        simp [hzero, Option.filter, hs]
  · rw [if_neg (fun hn ↦ hpid (Option.some.inj hn).symm)] at hq
    rw [if_neg (by simp), hq]
    cases hget : w.host.building.get? q with
    | none => rfl
    | some s =>
        have hs : s.1 = q := Table.key_of_get? hget
        simp [Option.filter, hs, hpid]

/-- What a commit does with the backends of a build: the map keeps them, or they are
cleaned up. -/
theorem commit_balance (h : Custody w ((j, g) ::ₘ gs)) {pid : Int64} (hg : g.claim = some pid)
    (built : Except Err ProfileRuntime) :
    ((w.host.commit pid built).1.2 : Multiset EgressBackend) + (w.host.commit pid built).2.keeps =
      w.host.keeps + handed built := by
  have hnone : w.host.runtimeOf pid = none :=
    h.vacant pid (h.building_of_claim (Multiset.mem_cons_self ..) hg)
  rcases w.host.commit_cases pid built with ⟨⟨e, rfl⟩, -, -⟩ | ⟨rt, rfl, hn, hrts, hrun⟩ |
    ⟨rt, rts, rfl, hsome, -, hrun⟩
  · exact add_comm _ _
  · rw [hrun, Host.keeps_of_runtimes_none hrts, Host.keeps_of_runtimes_none hn]
    simp [handed]
  · rw [hrun, Host.keeps_commit hsome hnone]
    simp [handed]

theorem commit (h : Custody w ((j, g) ::ₘ gs)) {pid : Int64} {built : Except Err ProfileRuntime}
    (hg : g.claim = some pid) (hheld : g.held = handed built) :
    Custody
      { w with
        host := (w.host.commit pid built).2
        cleaned := (w.host.commit pid built).1.2.reverse ++ w.cleaned }
      ((j, { g with claim := none, held := [] }) ::ₘ gs) := by
  refine h.of_record ?_ rfl (h.slots_commit hg built) ?_ ?_ ?_ ?_ ?_
    (Record.Idle.owes ⟨rfl, rfl⟩ j)
  · have hbalance := h.commit_balance hg built
    simp only [← Multiset.coe_add, Multiset.coe_reverse, Multiset.coe_nil, zero_add]
    calc (w.spawned : Multiset EgressBackend)
        = w.cleaned + (w.host.keeps + handed built) + inHand gs := by
          rw [h.balance_cons, hheld]
          abel
      _ = (w.host.commit pid built).1.2 + w.cleaned + (w.host.commit pid built).2.keeps +
            inHand gs := by
          rw [← hbalance]
          abel
  · intro q hq
    rw [Host.building_commit, Table.get?_deleteWhere] at hq
    cases hrt : (w.host.commit pid built).2.runtimeOf q with
    | none => rfl
    | some rt =>
        obtain ⟨s, hs⟩ := Option.isSome_iff_exists.mp hq
        obtain ⟨hget, hne⟩ := Option.filter_eq_some_iff.mp hs
        have hkey : s.1 = q := Table.key_of_get? hget
        rcases Host.runtimeOf_commit hrt with hrt | ⟨rfl, -⟩
        · rw [h.vacant q (by rw [hget]; rfl)] at hrt
          cases hrt
        · simp [hkey] at hne
  · intro hc
    rw [Host.closed_commit] at hc
    rcases w.host.commit_cases pid built with ⟨-, hrts, -⟩ | ⟨-, -, -, hrts, -⟩ |
      ⟨-, rts, -, hsome, -⟩
    · rw [hrts]
      exact h.closed hc
    · exact hrts
    · rw [h.closed hc] at hsome
      cases hsome
  · rw [Host.closed_commit]
    exact id
  · rw [Host.closed_commit]
    exact h.shut _ (Multiset.mem_cons_self ..)
  · intro q rt hrt b hb
    rcases Host.runtimeOf_commit hrt with hrt | ⟨rfl, rfl⟩
    · exact h.tenants q rt hrt b hb
    · exact (h.owes_head.builder q hg).2 b (hheld ▸ hb)

/-- A thread that tears down takes backends out of the map. -/
theorem taken (h : Custody w ((j, g) ::ₘ gs)) (hj : j.TearsDown) (hg : g.Idle) {pid : Int64}
    (hclaim : g'.claim = none) (hshut : g'.shut = g.shut)
    (hheld : w.host.keeps = g'.held + (w.host.take pid).2.keeps) :
    Custody { w with host := (w.host.take pid).2 } ((j, g') ::ₘ gs) := by
  refine h.of_record ?_ rfl ?_ ?_ ?_ id ?_ ?_ ⟨?_, fun hn ↦ absurd hj hn⟩
  · rw [h.balance_cons, hg.2, hheld, Multiset.coe_nil]
    abel
  · rw [hclaim, ← hg.1]
    exact h.slots_cons
  · intro q hq
    rw [Host.runtimeOf_take, h.vacant q hq, ite_self]
  · intro hc
    simp only [Host.take, h.closed hc, Option.map_none]
  · rw [hshut]
    exact h.shut _ (Multiset.mem_cons_self ..)
  · intro q rt hrt
    rw [Host.runtimeOf_take] at hrt
    split at hrt
    · cases hrt
    · exact h.tenants q rt hrt
  · intro q hq
    rw [hclaim] at hq
    cases hq

theorem takeRuntime (h : Custody w ((j, g) ::ₘ gs)) (hj : j.TearsDown) (hg : g.Idle)
    (pid : Int64) :
    Custody { w with host := (w.host.take pid).2 }
      ((j, Record.track (.takeRuntime pid) g (w.host.take pid).1) ::ₘ gs) := by
  have hfst : (w.host.take pid).1 = w.host.runtimeOf pid := rfl
  cases hrt : w.host.runtimeOf pid with
  | none =>
      rw [hfst, hrt]
      refine h.taken hj hg hg.1 rfl ?_
      rw [Host.keeps_congr (Host.stored_take_of_none hrt)]
      simp only [Record.track, hg.2, Multiset.coe_nil, zero_add]
  | some rt =>
      rw [hfst, hrt]
      exact h.taken hj hg hg.1 rfl (Host.keeps_take hrt)

/-- `Close` takes the backends of all runtimes in hand. -/
theorem takeAll (h : Custody w ((j, g) ::ₘ gs)) (hj : j.TearsDown) (hg : g.Idle) :
    Custody { w with host := w.host.takeAll.2 }
      ((j, Record.track .takeAll g w.host.takeAll.1) ::ₘ gs) := by
  refine h.of_record ?_ rfl h.slots_cons ?_ (fun _ ↦ rfl) (fun _ ↦ rfl) (fun _ ↦ rfl) ?_
    ⟨?_, fun hn ↦ absurd hj hn⟩
  · have hheld : (Record.track .takeAll g w.host.takeAll.1).held =
        w.host.stored.rows.flatMap fun s ↦ s.2.cleanups := List.flatMap_map ..
    rw [h.balance_cons, hg.2, hheld, Host.keeps_of_runtimes_none (h := w.host.takeAll.2) rfl,
      Host.keeps, Multiset.coe_nil]
    abel
  · exact fun q _ ↦ rfl
  · intro q rt hrt
    cases hrt
  · intro q hq
    have hclaim : g.claim = some q := hq
    rw [hg.1] at hclaim
    cases hclaim

/-! ### Backends -/

theorem spawn (h : Custody w ((j, g) ::ₘ gs)) {pid : Int64} (hg : g.claim = some pid)
    {b : EgressBackend} (hid : b.id = w.spawned.length) (htenant : b.tenant = formatInt pid) :
    Custody { w with spawned := b :: w.spawned } ((j, { g with held := g.held ++ [b] }) ::ₘ gs) where
  balance := by
    rw [inHand_cons, ← Multiset.cons_coe, h.balance_cons, ← Multiset.singleton_add,
      ← Multiset.coe_add, Multiset.coe_singleton]
    abel
  nodup := by
    refine List.nodup_cons.mpr ⟨fun hb ↦ ?_, h.nodup⟩
    have := h.ids b hb
    omega
  ids := by
    intro b' hb'
    rw [List.length_cons]
    rcases List.mem_cons.mp hb' with rfl | hb'
    · omega
    · have := h.ids b' hb'
      omega
  slots := by
    intro q
    rw [claims_cons]
    exact h.slots_cons q
  vacant := h.vacant
  closed := h.closed
  shut := by
    intro t ht hs
    rcases Multiset.mem_cons.mp ht with rfl | ht
    · exact h.shut (j, g) (Multiset.mem_cons_self ..) hs
    · exact h.shut t (Multiset.mem_cons_of_mem ht) hs
  tenants := h.tenants
  owes := by
    intro t ht
    rcases Multiset.mem_cons.mp ht with rfl | ht
    · refine ⟨fun q hq ↦ ?_, fun _ hnone ↦ ?_⟩
      · obtain ⟨hbuilds, hheld⟩ := h.owes_head.builder q hq
        refine ⟨hbuilds, fun b' hb' ↦ ?_⟩
        rcases List.mem_append.mp hb' with hb' | hb'
        · exact hheld b' hb'
        · have hqp : some q = some pid := Eq.trans (Eq.symm hq) hg
          rw [List.mem_singleton.mp hb', htenant, Option.some.inj hqp]
      · have hclaim : g.claim = none := hnone
        rw [hg] at hclaim
        cases hclaim
    · exact h.owes t (Multiset.mem_cons_of_mem ht)

theorem cleanup (h : Custody w ((j, g) ::ₘ gs)) {b : EgressBackend} (hb : b ∈ g.held) :
    Custody { w with cleaned := b :: w.cleaned } ((j, { g with held := g.held.erase b }) ::ₘ gs) := by
  refine h.of_record ?_ rfl h.slots_cons h.vacant h.closed id
    (h.shut (j, g) (Multiset.mem_cons_self ..)) h.tenants ⟨?_, ?_⟩
  · have hheld : (g.held : Multiset EgressBackend) = b ::ₘ (g.held.erase b : List EgressBackend) :=
      Multiset.coe_eq_coe.mpr (List.perm_cons_erase hb)
    rw [h.balance_cons, hheld, ← Multiset.cons_coe, ← Multiset.singleton_add,
      ← Multiset.singleton_add]
    abel
  · intro q hq
    obtain ⟨hbuilds, hheld⟩ := h.owes_head.builder q hq
    exact ⟨hbuilds, fun b' hb' ↦ hheld b' (List.mem_of_mem_erase hb')⟩
  · intro hn hnone
    have hnil := h.owes_head.idle hn hnone
    rw [hnil] at hb
    cases hb

/-! ### Steps of a pool -/

variable {O : Outside} {faults : Call → Prop}

theorem alike (h : Custody w ((j, g) ::ₘ gs)) {ts : List Tbl} (hw : Alike ts w w')
    (hclaim : g'.claim = g.claim) (hheld : g'.held = g.held) (hshut : g'.shut = g.shut) :
    Custody w' ((j, g') ::ₘ gs) :=
  h.quiet hw.host hw.spawned hw.cleaned hclaim hheld hshut

/-- **Step lemma.**  A permitted call keeps the invariant. -/
theorem call (h : Custody w ((j, g) ::ₘ gs)) {e : Call} {r : e.Res} (hp : Permitted j e g)
    (hs : sem O faults e w r w') : Custody w' ((j, Record.track e g r) ::ₘ gs) := by
  cases e with
  | sql c =>
      obtain ⟨hclaim, hheld, hshut⟩ := g.noted_owed c r
      have htouch : Touches c.writes (.sql c) := List.Subset.refl _
      exact h.alike (sem_touches htouch hs) hclaim hheld hshut
  | enter pid =>
      obtain ⟨rfl, rfl⟩ := hs
      exact h.enter hp.1 hp.2
  | commit pid built =>
      obtain ⟨rfl, rfl⟩ := hs
      exact h.commit hp.1 hp.2
  | takeRuntime pid =>
      obtain ⟨rfl, rfl⟩ := hs
      exact h.takeRuntime hp.1 hp.2.1 pid
  | takeAll =>
      obtain ⟨rfl, rfl⟩ := hs
      exact h.takeAll hp.1 hp.2
  | spawn srv tenant placeholder =>
      obtain ⟨pid, hclaim, rfl⟩ := hp
      rcases hs with ⟨rfl, rfl⟩ | ⟨rfl, e, rfl, -⟩
      · exact h.spawn hclaim rfl rfl
      · exact h
  | cleanup b =>
      obtain rfl := hs
      exact h.cleanup hp
  | closeChan ch =>
      obtain rfl := hs
      exact ⟨h.balance, h.nodup, h.ids, h.slots, h.vacant, h.closed, h.shut, h.tenants, h.owes⟩
  | _ =>
      have hw : Alike [] w w' := sem_touches (by trivial) hs
      exact h.alike hw rfl rfl rfl

theorem start (h : Custody w gs) (j : Job) : Custody w ((j, .fresh) ::ₘ gs) where
  balance := by
    rw [inHand_cons]
    simpa [Record.fresh] using h.balance
  nodup := h.nodup
  ids := h.ids
  slots := by
    intro pid
    rw [claims_cons, if_neg (by simp [Record.fresh]), Nat.add_zero]
    exact h.slots pid
  vacant := h.vacant
  closed := h.closed
  shut := by
    intro t ht hs
    rcases Multiset.mem_cons.mp ht with rfl | ht
    · cases hs
    · exact h.shut t ht hs
  tenants := h.tenants
  owes := by
    intro t ht
    rcases Multiset.mem_cons.mp ht with rfl | ht
    · exact Record.Idle.owes ⟨rfl, rfl⟩ j
    · exact h.owes t ht

theorem again (h : Custody w ((j, g) ::ₘ gs)) (hg : g.Idle) (j' : Job) :
    Custody w ((j', g) ::ₘ gs) where
  balance := by
    rw [inHand_cons]
    exact h.balance_cons
  nodup := h.nodup
  ids := h.ids
  slots := by
    intro pid
    rw [claims_cons]
    exact h.slots_cons pid
  vacant := h.vacant
  closed := h.closed
  shut := by
    intro t ht hs
    rcases Multiset.mem_cons.mp ht with rfl | ht
    · exact h.shut (j, g) (Multiset.mem_cons_self ..) hs
    · exact h.shut t (Multiset.mem_cons_of_mem ht) hs
  tenants := h.tenants
  owes := by
    intro t ht
    rcases Multiset.mem_cons.mp ht with rfl | ht
    · exact hg.owes j'
    · exact h.owes t (Multiset.mem_cons_of_mem ht)

theorem elsewhere (h : Custody w gs) (hw : elsewhere O w w') : Custody w' gs := by
  have hsame : w'.host = w.host ∧ w'.spawned = w.spawned ∧ w'.cleaned = w.cleaned := by
    rcases hw with ⟨c, r, hr⟩ | ⟨t, -, rfl⟩
    · have htouch : Touches c.writes (.sql c) := List.Subset.refl _
      have halike := sem_touches htouch hr
      exact ⟨halike.host, halike.spawned, halike.cleaned⟩
    · exact ⟨rfl, rfl, rfl⟩
  obtain ⟨hhost, hspawned, hcleaned⟩ := hsame
  obtain ⟨db, now, host, spawned, cleaned⟩ := w'
  subst hhost hspawned hcleaned
  exact ⟨h.balance, h.nodup, h.ids, h.slots, h.vacant, h.closed, h.shut, h.tenants, h.owes⟩

theorem boot (db : Database) (now : Time) : Custody (.boot db now) 0 where
  balance := rfl
  nodup := List.nodup_nil
  ids := fun _ hb ↦ nomatch hb
  slots := fun _ ↦ rfl
  vacant := fun _ hb ↦ nomatch hb
  closed := fun _ ↦ rfl
  shut := fun t ht ↦ absurd ht (Multiset.notMem_zero t)
  tenants := nofun
  owes := fun t ht ↦ absurd ht (Multiset.notMem_zero t)

end Custody

/-- The discipline of the profile host. -/
def custody (O : Outside) (starts : Job → Prop) : Discipline (host O starts) where
  pre := Permitted
  fin := Ends
  Inv := Custody
  body_conforms := host_conducts O starts
  again_conforms := by
    rintro w gs j j' g - ⟨hg, -⟩
    exact body_conducts j' hg
  inv_start := fun _ _ j _ h ↦ h.start j
  inv_call := by
    intro w gs j g e r w' h hp hs
    have hs : sem O (fun _ ↦ True) e w r w' := hs
    exact h.call hp hs
  inv_again := fun _ _ _ j' _ h hend ↦ h.again hend.1 j'
  inv_env := fun _ _ _ h hw ↦ h.elsewhere hw

/-- **Run lemma.**  Every pool the host's goroutines reach from a fresh start follows the
discipline. -/
theorem custody_good {O : Outside} {starts : Job → Prop} {db : Database} {now : Time}
    {c : Pool gateway Outcome Job Record World}
    (hc : (host O starts).Reach ⟨.boot db now, []⟩ c) : (custody O starts).Good c :=
  (custody O starts).good ((custody O starts).good_nil (Custody.boot db now)) hc

section NoLeak

variable {O : Outside} {starts : Job → Prop} {c : Pool gateway Outcome Job Record World}

/-- A thread that has finished owes nothing. -/
theorem finished_ends (hc : (custody O starts).Good c) {t : Thread gateway Outcome Job Record}
    (ht : t ∈ c.threads) (hfin : t.Finished) :
    t.record.Idle ∧ (t.job = .close → t.record.shut = true) := by
  obtain ⟨a, ha⟩ := hfin
  have hconf := hc.conforms t ht
  rw [ha] at hconf
  exact hconf

/-- Once the threads that tear down have finished and no build is under way, no thread
has a backend in hand. -/
theorem inHand_eq_zero (hc : (custody O starts).Good c)
    (hdown : ∀ t ∈ c.threads, t.job.TearsDown → t.Finished)
    (hbuilds : ∀ t ∈ c.threads, t.record.claim = none) : inHand c.records = 0 := by
  refine Multiset.eq_zero_of_forall_notMem fun b hb ↦ ?_
  obtain ⟨t', ht', hb⟩ := mem_inHand.mp hb
  obtain ⟨t, ht, rfl⟩ := List.mem_map.mp (Multiset.mem_coe.mp ht')
  by_cases htears : t.job.TearsDown
  · have hnil := (finished_ends hc ht (hdown t ht htears)).1.2
    rw [hnil] at hb
    cases hb
  · have hnil := (hc.inv.owes _ ht').idle htears (hbuilds t ht)
    rw [hnil] at hb
    cases hb

theorem claims_records (c : Pool gateway Outcome Job Record World) (pid : Int64) :
    claims c.records pid = c.threads.countP fun t ↦ t.record.claim = some pid := by
  rw [claims, Pool.records, Multiset.coe_countP, List.countP_map]
  rfl

/-- **No leak and no double cleanup.**  In every pool the host's goroutines reach, in
any interleaving and with any failures: at most one of them builds a profile's runtime;
a runtime about to be stored overwrites none; no backend is cleaned up twice, and none
that no spawn returned; and once a `Close` has returned, every `Invalidate` and `Close`
that was called has returned and no build is under way, each backend has been cleaned up
exactly once and no runtime is stored. -/
theorem backends_cleaned_once {db : Database} {now : Time}
    (hc : (host O starts).Reach ⟨.boot db now, []⟩ c) :
    (∀ pid, (c.threads.countP fun t ↦ t.record.claim = some pid) ≤ 1) ∧
    (∀ t ∈ c.threads, ∀ pid rt k, t.cur = .vis (.commit pid (.ok rt)) k →
      c.shared.host.runtimeOf pid = none) ∧
    (c.shared.cleaned.Nodup ∧ ∀ b ∈ c.shared.cleaned, b ∈ c.shared.spawned) ∧
    ((∃ t ∈ c.threads, t.job = .close ∧ t.Finished) →
      (∀ t ∈ c.threads, t.job.TearsDown → t.Finished) →
      (∀ t ∈ c.threads, t.record.claim = none) →
      (∀ b ∈ c.shared.spawned, c.shared.cleaned.count b = 1) ∧
        ∀ pid, c.shared.host.runtimeOf pid = none) := by
  have hgood := custody_good hc
  have hinv : Custody c.shared c.records := hgood.inv
  have hle : (c.shared.cleaned : Multiset EgressBackend) ≤ c.shared.spawned := by
    rw [hinv.balance, add_assoc]
    exact Multiset.le_add_right _ _
  refine ⟨fun pid ↦ ?_, ?_, ⟨?_, ?_⟩, ?_⟩
  · rw [← claims_records, hinv.slots pid]
    split
    · exact le_refl _
    · exact Nat.zero_le _
  · intro t ht pid rt k hcur
    have hconf := hgood.conforms t ht
    rw [hcur] at hconf
    exact hinv.vacant pid (hinv.building_of_claim (Pool.mem_records ht) hconf.1.1)
  · exact Multiset.coe_nodup.mp (Multiset.nodup_of_le hle (Multiset.coe_nodup.mpr hinv.nodup))
  · exact fun b hb ↦ Multiset.mem_of_le hle hb
  · rintro ⟨t, ht, hclose, hfin⟩ hdown hbuilds
    have hshut := (finished_ends hgood ht hfin).2 hclose
    have hnone : c.shared.host.runtimes = none :=
      hinv.closed (hinv.shut _ (Pool.mem_records ht) hshut)
    have hbalance := hinv.balance
    rw [Host.keeps_of_runtimes_none hnone, inHand_eq_zero hgood hdown hbuilds, add_zero, add_zero]
      at hbalance
    refine ⟨fun b hb ↦ ?_, fun pid ↦ ?_⟩
    · rw [← (Multiset.coe_eq_coe.mp hbalance).count_eq b]
      exact List.count_eq_one_of_mem hinv.nodup hb
    · simp [Host.runtimeOf, Host.stored, hnone]

namespace Example.Echo

/-- `getOrCreate` runs to its end, `Invalidate` takes the runtime out of the map, and
`Close` runs to its end. -/
def interrupted : List (Move Job) :=
  .start (.getOrCreate profile) :: .replicate 10 (.step 0) ++
    [.start (.invalidate 1), .step 1, .start .close, .step 2]

end Example.Echo

open Example.Echo in
/-- When `Invalidate` has also run its cleanup, the backend has been cleaned up once. -/
theorem backends_cleaned_once_echo :
    ∃ c, (host Partners.outside fun _ ↦ True).Reach idle c ∧
      c.shared.spawned = [backend] ∧ ∀ b ∈ c.shared.spawned, c.shared.cleaned.count b = 1 := by
  have hreach : (host Partners.outside fun _ ↦ True).Reach idle
      (play (fun _ ↦ True) idle (interrupted ++ [.step 1])) := reach_play fun _ _ ↦ trivial
  refine ⟨_, hreach, rfl, ((backends_cleaned_once hreach).2.2.2 ?_ ?_ ?_).1⟩
  · exact ⟨_, List.get_mem _ ⟨2, by decide⟩, rfl, .done, rfl⟩
  · decide
  · decide

open Example.Echo in
/-- `Close` has returned and no build is under way, but the cleanup that `Invalidate` has
yet to run has not been invoked. -/
theorem close_returns_before_cleanup :
    ∃ c, (host Partners.outside fun _ ↦ True).Reach idle c ∧
      (∃ t ∈ c.threads, t.job = .close ∧ t.Finished) ∧
      (∀ t ∈ c.threads, t.record.claim = none) ∧
      backend ∈ c.shared.spawned ∧ backend ∉ c.shared.cleaned := by
  refine ⟨_, reach_play (s := interrupted) fun _ _ ↦ trivial, ?_, ?_, ?_, ?_⟩
  · exact ⟨_, List.get_mem _ ⟨2, by decide⟩, rfl, .done, rfl⟩
  · decide
  · decide
  · decide

end NoLeak

end GigMcp.Gateway

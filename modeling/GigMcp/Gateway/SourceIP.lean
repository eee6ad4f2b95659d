import GigMcp.Gateway.Spawn

/-!
# A source address belongs to one tenant

The proxy knows a sandbox by its source address only.  `Sound` says how the allocator,
the registry and the spawns under way fit together: the indices in use are those the
spawns hold, each once, and the rows of the registry are the bindings of the spawns that
are bound.  It is kept as long as there are fewer subnets in use than the address space
has; after that, addresses repeat.
-/

namespace GigMcp.Gateway

open GigMcp.Effect GigMcp.Netmgr GigMcp.Proxy GigMcp.Data

/-! ## How spawns conduct themselves -/

/-- When a spawn may make a call. -/
def SpawnPermitted (id : Identity) : SpawnCall → Holding → Prop
  | .allocate, g => g = .nothing
  | .free sub, g => g = ⟨some sub, false⟩
  | .bind ip id', g => ∃ sub, g = ⟨some sub, false⟩ ∧ ip = sub.sandboxIP ∧ id' = id
  | .unbind ip, g => ∃ sub, g = ⟨some sub, true⟩ ∧ ip = sub.sandboxIP
  | .host _, _ => True

/-- What a spawn may hold at its end. -/
def SpawnEnds : Except Err Subnet → Holding → Prop
  | .error _, g => g = .nothing
  | .ok sub, g => g = ⟨some sub, true⟩

/-- A program of a spawn keeps to the discipline and ends as `fin` says. -/
abbrev SpawnConducts {α : Type} (id : Identity) (fin : α → Holding → Prop)
    (p : Prog spawning α) (g : Holding) : Prop :=
  Conforms Holding.track (SpawnPermitted id) fin p g

/-- Everything has been released. -/
def Released (_ : Unit) (g : Holding) : Prop := g = .nothing

section Conducts

variable {id : Identity} {sub : Subnet} {g : Holding}

/-- A step that releases everything when it fails. -/
theorem attempt_conducts {h : HostStep} {msg : String} {release : Prog spawning Unit}
    {next : Prog spawning (Except Err Subnet)} (hrelease : SpawnConducts id Released release g)
    (hnext : SpawnConducts id SpawnEnds next g) :
    SpawnConducts id SpawnEnds (attempt h msg release next) g := by
  refine conforms_call.mpr ⟨trivial, fun r ↦ ?_⟩
  cases r with
  | error e => exact hrelease.bind fun _ _ hg ↦ hg
  | ok _ => exact hnext

theorem free_conducts : SpawnConducts id Released (does (.free sub)) ⟨some sub, false⟩ :=
  ⟨rfl, fun _ ↦ rfl⟩

theorem earlyCleanup_conducts :
    SpawnConducts id Released (earlyCleanup sub) ⟨some sub, false⟩ :=
  ⟨rfl, fun _ ↦ ⟨trivial, fun _ ↦ rfl⟩⟩

theorem vethCleanup_conducts :
    SpawnConducts id Released (vethCleanup sub) ⟨some sub, false⟩ :=
  ⟨trivial, fun _ ↦ earlyCleanup_conducts⟩

theorem connectCleanup_conducts :
    SpawnConducts id Released (connectCleanup sub) ⟨some sub, true⟩ :=
  ⟨trivial, fun _ ↦ ⟨⟨sub, rfl, rfl⟩, fun _ ↦ earlyCleanup_conducts⟩⟩

theorem finalCleanup_conducts :
    SpawnConducts id Released (finalCleanup sub) ⟨some sub, true⟩ :=
  ⟨trivial, fun _ ↦ ⟨trivial, fun _ ↦ ⟨⟨sub, rfl, rfl⟩, fun _ ↦ earlyCleanup_conducts⟩⟩⟩

theorem bindAndConnect_conducts {srv : Store.Server} {tenant : String} :
    SpawnConducts ⟨srv.name, tenant⟩ SpawnEnds (bindAndConnect srv tenant sub)
      ⟨some sub, false⟩ := by
  refine conforms_call.mpr ⟨⟨sub, rfl, rfl, rfl⟩, fun _ ↦ ?_⟩
  refine attempt_conducts connectCleanup_conducts ?_
  exact ⟨trivial, fun _ ↦ rfl⟩

theorem network_conducts {next : Prog spawning (Except Err Subnet)}
    (hnext : SpawnConducts id SpawnEnds next ⟨some sub, false⟩) :
    SpawnConducts id SpawnEnds (network sub next) ⟨some sub, false⟩ := by
  refine attempt_conducts earlyCleanup_conducts ?_
  refine attempt_conducts vethCleanup_conducts ?_
  refine attempt_conducts vethCleanup_conducts ?_
  exact attempt_conducts vethCleanup_conducts hnext

theorem process_conducts {next : Prog spawning (Except Err Subnet)}
    (hnext : SpawnConducts id SpawnEnds next ⟨some sub, false⟩) :
    SpawnConducts id SpawnEnds (process sub next) ⟨some sub, false⟩ := by
  refine attempt_conducts free_conducts ?_
  refine attempt_conducts free_conducts ?_
  refine attempt_conducts free_conducts ?_
  refine attempt_conducts free_conducts ?_
  refine attempt_conducts free_conducts ?_
  refine attempt_conducts free_conducts ?_
  refine attempt_conducts free_conducts ?_
  refine attempt_conducts earlyCleanup_conducts ?_
  exact attempt_conducts earlyCleanup_conducts hnext

/-- A spawn releases what it holds on every path on which it fails. -/
theorem spawnEgressBackend_conducts (srv : Store.Server) (tenant : String) :
    SpawnConducts ⟨srv.name, tenant⟩ SpawnEnds (spawnEgressBackend srv tenant) .nothing := by
  refine conforms_call.mpr ⟨trivial, fun r ↦ ?_⟩
  cases r with
  | error e => exact rfl
  | ok _ =>
      refine conforms_call.mpr ⟨rfl, fun r ↦ ?_⟩
      cases r with
      | error e => exact rfl
      | ok sub => exact process_conducts (network_conducts bindAndConnect_conducts)

/-- What a job may hold at its end. -/
def SandboxEnds (j : SandboxJob) : Unit ⊕ SandboxJob → Holding → Prop
  | .inl _, g => g = .nothing
  | .inr j', g => ∃ srv tenant sub, j' = .up srv tenant sub ∧ j'.identity = j.identity ∧
      g = ⟨some sub, true⟩

theorem spawnJob_conducts (srv : Store.Server) (tenant : String) :
    SpawnConducts ⟨srv.name, tenant⟩ (SandboxEnds (.spawn srv tenant))
      (SandboxJob.body (.spawn srv tenant)) .nothing := by
  refine (spawnEgressBackend_conducts srv tenant).bind fun r g hg ↦ ?_
  cases r with
  | error e => exact hg
  | ok sub => exact ⟨srv, tenant, sub, rfl, rfl, hg⟩

theorem upJob_conducts (srv : Store.Server) (tenant : String) (sub : Subnet) :
    SpawnConducts id (SandboxEnds (.up srv tenant sub)) (SandboxJob.body (.up srv tenant sub))
      ⟨some sub, true⟩ :=
  finalCleanup_conducts.bind fun _ _ hg ↦ hg

end Conducts

/-! ## What the allocator and the registry hold -/

/-- The indices that spawns hold. -/
def heldIndices (gs : Multiset (SandboxJob × Holding)) : Multiset ℕ :=
  gs.filterMap fun x ↦ x.2.held.map Subnet.index

/-- The bindings of the spawns that are bound. -/
def bindings (gs : Multiset (SandboxJob × Holding)) : Multiset (UInt32 × Identity) :=
  gs.filterMap fun x ↦
    if x.2.bound then x.2.held.map fun sub ↦ (sub.sandboxIP, x.1.identity) else none

section Multisets

variable {j : SandboxJob} {sub : Subnet} {b : Bool} {gs : Multiset (SandboxJob × Holding)}

@[simp] theorem heldIndices_none : heldIndices ((j, ⟨none, b⟩) ::ₘ gs) = heldIndices gs :=
  Multiset.filterMap_cons_none _ _ rfl

@[simp] theorem heldIndices_some :
    heldIndices ((j, ⟨some sub, b⟩) ::ₘ gs) = sub.index ::ₘ heldIndices gs :=
  Multiset.filterMap_cons_some _ _ _ rfl

@[simp] theorem bindings_none : bindings ((j, ⟨none, b⟩) ::ₘ gs) = bindings gs := by
  refine Multiset.filterMap_cons_none _ _ ?_
  cases b with
  | false => rfl
  | true => rfl

@[simp] theorem bindings_false {held : Option Subnet} :
    bindings ((j, ⟨held, false⟩) ::ₘ gs) = bindings gs :=
  Multiset.filterMap_cons_none _ _ rfl

@[simp] theorem bindings_true :
    bindings ((j, ⟨some sub, true⟩) ::ₘ gs) = (sub.sandboxIP, j.identity) ::ₘ bindings gs :=
  Multiset.filterMap_cons_some _ _ _ rfl

theorem mem_bindings {ip : UInt32} {id : Identity} (h : (ip, id) ∈ bindings gs) :
    ∃ x ∈ gs, x.1.identity = id ∧ ∃ sub, x.2 = ⟨some sub, true⟩ ∧ sub.sandboxIP = ip := by
  obtain ⟨⟨j, held, bound⟩, hx, hsome⟩ := (Multiset.mem_filterMap _ _).mp h
  dsimp only at hsome
  split at hsome
  · rename_i hbound
    obtain ⟨sub, rfl, hpair⟩ := Option.map_eq_some_iff.mp hsome
    obtain ⟨hip, hid⟩ := Prod.mk.inj hpair
    obtain rfl : bound = true := hbound
    exact ⟨_, hx, hid, sub, rfl, hip⟩
  · cases hsome

end Multisets

/-- The allocator and the registry hold what the spawns hold. -/
structure Sound (base : UInt32) (w : Net) (gs : Multiset (SandboxJob × Holding)) : Prop where
  base_eq : w.alloc.base = base
  used : w.alloc.used.val = heldIndices gs
  small : ∀ k ∈ w.alloc.used, k < subnets
  subnets : ∀ x ∈ gs, ∀ sub, x.2.held = some sub → sub = subnet base sub.index
  rows : (w.reg.m.rows : Multiset (UInt32 × Identity)) = bindings gs

namespace Sound

variable {base : UInt32} {w : Net} {gs : Multiset (SandboxJob × Holding)} {j j' : SandboxJob}
  {g : Holding} {sub sub' : Subnet} {b : Bool}

theorem index_notMem (h : Sound base w ((j, ⟨some sub, b⟩) ::ₘ gs)) :
    sub.index ∉ heldIndices gs := by
  have hnodup : (sub.index ::ₘ heldIndices gs).Nodup := by
    rw [← heldIndices_some (j := j) (b := b), ← h.used]
    exact w.alloc.used.nodup
  exact (Multiset.nodup_cons.mp hnodup).1

theorem mem_used {x : SandboxJob × Holding} (h : Sound base w gs) (hx : x ∈ gs)
    (hheld : x.2.held = some sub) : sub.index ∈ w.alloc.used := by
  show sub.index ∈ w.alloc.used.val
  rw [h.used]
  exact (Multiset.mem_filterMap _ _).mpr ⟨x, hx, by rw [hheld]; rfl⟩

/-- A spawn's address is no other spawn's. -/
theorem sandboxIP_ne (h : Sound base w ((j, ⟨some sub, b⟩) ::ₘ gs)) {x : SandboxJob × Holding}
    (hx : x ∈ gs) (hheld : x.2.held = some sub') : sub'.sandboxIP ≠ sub.sandboxIP := by
  intro hip
  have hsub := h.subnets _ (Multiset.mem_cons_self _ _) sub rfl
  have hsub' := h.subnets _ (Multiset.mem_cons_of_mem hx) sub' hheld
  have hlt := h.small _ (h.mem_used (Multiset.mem_cons_self _ _) rfl)
  have hlt' := h.small _ (h.mem_used (Multiset.mem_cons_of_mem hx) hheld)
  rw [hsub, hsub'] at hip
  have hindex : sub'.index = sub.index := sandboxIP_inj hlt' hlt hip
  refine h.index_notMem ?_
  rw [← hindex]
  exact (Multiset.mem_filterMap _ _).mpr ⟨x, hx, by rw [hheld]; rfl⟩

/-- The address of a spawn that is not bound has no binding. -/
theorem lookup_unbound (h : Sound base w ((j, ⟨some sub, false⟩) ::ₘ gs)) :
    w.reg.lookup sub.sandboxIP = none := by
  cases hid : w.reg.lookup sub.sandboxIP with
  | none => rfl
  | some id =>
      have hmem : (sub.sandboxIP, id) ∈ bindings gs := by
        rw [← bindings_false (j := j), ← h.rows]
        exact Registry.lookup_eq_some.mp hid
      obtain ⟨x, hx, -, sub', hheld, hip⟩ := mem_bindings hmem
      exact absurd hip (h.sandboxIP_ne hx (by rw [hheld]))

/-! ### Step lemmas -/

theorem start (h : Sound base w gs) : Sound base w ((j, .nothing) ::ₘ gs) where
  base_eq := h.base_eq
  used := h.used.trans heldIndices_none.symm
  small := h.small
  subnets := by
    intro x hx sub hheld
    rcases Multiset.mem_cons.mp hx with rfl | hx
    · cases hheld
    · exact h.subnets x hx sub hheld
  rows := h.rows.trans bindings_none.symm

/-- The same holding under another job of the same identity. -/
theorem rejob (h : Sound base w ((j, g) ::ₘ gs)) (hid : j'.identity = j.identity) :
    Sound base w ((j', g) ::ₘ gs) := by
  obtain ⟨held, bound⟩ := g
  refine ⟨h.base_eq, ?_, h.small, ?_, ?_⟩
  · cases held with
    | none => simpa using h.used
    | some sub => simpa using h.used
  · intro x hx sub hheld
    rcases Multiset.mem_cons.mp hx with rfl | hx
    · exact h.subnets _ (Multiset.mem_cons_self _ _) sub hheld
    · exact h.subnets x (Multiset.mem_cons_of_mem hx) sub hheld
  · cases held with
    | none => simpa using h.rows
    | some sub =>
        cases bound with
        | false => simpa using h.rows
        | true => simpa [hid] using h.rows

theorem allocate (h : Sound base w ((j, .nothing) ::ₘ gs))
    (hroom : w.alloc.used.card < Netmgr.subnets) :
    Sound base { w with alloc := w.alloc.allocate.2 }
      ((j, ⟨some (subnet w.alloc.base w.alloc.next), false⟩) ::ₘ gs) where
  base_eq := h.base_eq
  used := by
    show (insert w.alloc.next w.alloc.used).val = _
    rw [Finset.insert_val_of_notMem w.alloc.next_notMem, h.used]
    simp [Holding.nothing, subnet]
  small := by
    intro k hk
    rcases Finset.mem_insert.mp hk with rfl | hk
    · exact lt_of_le_of_lt w.alloc.next_le_card hroom
    · exact h.small k hk
  subnets := by
    intro x hx sub hheld
    rcases Multiset.mem_cons.mp hx with rfl | hx
    · cases hheld
      rw [h.base_eq]
      rfl
    · exact h.subnets x (Multiset.mem_cons_of_mem hx) sub hheld
  rows := by
    rw [bindings_false, h.rows]
    exact bindings_none

theorem free (h : Sound base w ((j, ⟨some sub, false⟩) ::ₘ gs)) :
    Sound base { w with alloc := w.alloc.free sub } ((j, .nothing) ::ₘ gs) where
  base_eq := h.base_eq
  used := by
    show (w.alloc.used.erase sub.index).val = _
    rw [Finset.erase_val, h.used]
    simp [Holding.nothing]
  small := fun k hk ↦ h.small k (Finset.mem_of_mem_erase hk)
  subnets := by
    intro x hx sub hheld
    rcases Multiset.mem_cons.mp hx with rfl | hx
    · cases hheld
    · exact h.subnets x (Multiset.mem_cons_of_mem hx) sub hheld
  rows := by
    rw [Holding.nothing, bindings_false]
    exact h.rows.trans bindings_false

theorem bind (h : Sound base w ((j, ⟨some sub, false⟩) ::ₘ gs)) :
    Sound base { w with reg := w.reg.bind sub.sandboxIP j.identity }
      ((j, ⟨some sub, true⟩) ::ₘ gs) where
  base_eq := h.base_eq
  used := by simpa using h.used
  small := h.small
  subnets := by
    intro x hx sub hheld
    rcases Multiset.mem_cons.mp hx with rfl | hx
    · exact h.subnets _ (Multiset.mem_cons_self _ _) sub hheld
    · exact h.subnets x (Multiset.mem_cons_of_mem hx) sub hheld
  rows := by
    have hnone : w.reg.m.get? sub.sandboxIP = none := Option.map_eq_none_iff.mp h.lookup_unbound
    have hrows : (w.reg.bind sub.sandboxIP j.identity).m.rows =
        w.reg.m.rows ++ [(sub.sandboxIP, j.identity)] := Table.rows_upsert_of_get?_none hnone
    rw [hrows, bindings_true, ← Multiset.coe_add, h.rows, bindings_false, Multiset.coe_singleton,
      Multiset.add_comm, Multiset.singleton_add]

theorem unbind (h : Sound base w ((j, ⟨some sub, true⟩) ::ₘ gs)) :
    Sound base { w with reg := w.reg.unbind sub.sandboxIP } ((j, ⟨some sub, false⟩) ::ₘ gs) where
  base_eq := h.base_eq
  used := by simpa using h.used
  small := h.small
  subnets := by
    intro x hx sub hheld
    rcases Multiset.mem_cons.mp hx with rfl | hx
    · exact h.subnets _ (Multiset.mem_cons_self _ _) sub hheld
    · exact h.subnets x (Multiset.mem_cons_of_mem hx) sub hheld
  rows := by
    have hmem : (sub.sandboxIP, j.identity) ∈ w.reg.m.rows := by
      rw [← Multiset.mem_coe, h.rows, bindings_true]
      exact Multiset.mem_cons_self _ _
    have hperm := Table.rows_perm_of_get? (Table.get?_of_mem hmem)
    have hrows := h.rows
    rw [Multiset.coe_eq_coe.mpr hperm, ← Multiset.cons_coe, bindings_true] at hrows
    rw [bindings_false]
    exact (Multiset.cons_inj_right _).mp hrows

end Sound

/-- There is room for one more subnet in the address space. -/
def HasSubnet (a : Allocator) : Prop := a.used.card < subnets

/-- The discipline of spawns. -/
def soundness (base : UInt32) : Discipline (spawns HasSubnet) where
  pre := fun j ↦ SpawnPermitted j.identity
  fin := SandboxEnds
  Inv := Sound base
  body_conforms := by
    rintro _ ⟨srv, tenant, rfl⟩
    exact spawnJob_conducts srv tenant
  again_conforms := by
    rintro w gs j j' g - ⟨srv, tenant, sub, rfl, hid, rfl⟩
    exact upJob_conducts srv tenant sub
  inv_start := fun w gs j _ h ↦ h.start
  inv_call := by
    intro w gs j g e r w' h hpre hr
    cases e with
    | allocate =>
        obtain rfl := hpre
        obtain ⟨hroom, rfl, rfl⟩ := hr
        exact h.allocate hroom
    | free sub =>
        obtain rfl := hpre
        obtain rfl := hr
        exact h.free
    | bind ip id =>
        obtain ⟨sub, rfl, rfl, rfl⟩ := hpre
        obtain rfl := hr
        exact h.bind
    | unbind ip =>
        obtain ⟨sub, rfl, rfl⟩ := hpre
        obtain rfl := hr
        exact h.unbind
    | host step =>
        obtain rfl := hr
        exact h
  inv_again := by
    rintro w gs j j' g h ⟨srv, tenant, sub, rfl, hid, -⟩
    exact h.rejob hid
  inv_env := by
    rintro w gs _ h rfl
    exact h

theorem soundness_good {base : UInt32} {c : Pool spawning Unit SandboxJob Holding Net}
    (hc : (spawns HasSubnet).Reach ⟨.fresh base, []⟩ c) : (soundness base).Good c :=
  (soundness base).good ((soundness base).good_nil
    ⟨rfl, rfl, fun _ hk ↦ absurd hk (Finset.notMem_empty _),
      fun _ hx ↦ absurd hx (Multiset.notMem_zero _), rfl⟩) hc

/-! ## Source addresses identify tenants -/

section Pools

variable {base : UInt32} {c : Pool spawning Unit SandboxJob Holding Net}
  {t u : Thread spawning Unit SandboxJob Holding} {sub sub' : Subnet}

/-- The invariant, with one thread singled out. -/
theorem sound_split (hc : (soundness base).Good c) (ht : t ∈ c.threads) :
    ∃ ts us, c.threads = ts ++ t :: us ∧
      Sound base c.shared ((t.job, t.record) ::ₘ (⟨c.shared, ts ++ us⟩ : Pool ..).records) := by
  obtain ⟨ts, us, hthreads⟩ := List.append_of_mem ht
  refine ⟨ts, us, hthreads, ?_⟩
  have hinv : Sound base c.shared c.records := hc.inv
  have hrecords : c.records = (⟨c.shared, ts ++ t :: us⟩ : Pool ..).records := by
    rw [← hthreads]
  rwa [hrecords, Pool.records_split] at hinv

/-- Threads at different places hold different indices. -/
theorem indices_pairwise (hc : (soundness base).Good c) :
    c.threads.Pairwise fun t u ↦ ∀ sub sub', t.record.held = some sub →
      u.record.held = some sub' → sub.index ≠ sub'.index := by
  have hinv : Sound base c.shared c.records := hc.inv
  have hnodup : (heldIndices c.records).Nodup := hinv.used ▸ c.shared.alloc.used.nodup
  have hlist : (c.threads.filterMap fun t ↦ t.record.held.map Subnet.index).Nodup := by
    have hcoe : heldIndices c.records =
        (c.threads.filterMap fun t ↦ t.record.held.map Subnet.index : List ℕ) := by
      rw [heldIndices, Pool.records, Multiset.filterMap_coe, List.filterMap_map]
      rfl
    rwa [hcoe, Multiset.coe_nodup] at hnodup
  refine (List.pairwise_filterMap.mp hlist).imp ?_
  intro t u hne sub sub' ht hu
  exact hne _ (by rw [ht]; rfl) _ (by rw [hu]; rfl)

theorem lookup_holder (hc : (soundness base).Good c) {ip : UInt32} {id : Identity}
    (hlookup : c.shared.reg.lookup ip = some id) :
    ∃ t ∈ c.threads, t.job.identity = id ∧ ∃ sub, t.record = ⟨some sub, true⟩ ∧
      sub.sandboxIP = ip := by
  have hinv : Sound base c.shared c.records := hc.inv
  have hmem : (ip, id) ∈ bindings c.records := by
    rw [← hinv.rows]
    exact Registry.lookup_eq_some.mp hlookup
  obtain ⟨x, hx, hid, sub, hrecord, hip⟩ := mem_bindings hmem
  obtain ⟨t, ht, rfl⟩ := List.mem_map.mp (Multiset.mem_coe.mp hx)
  exact ⟨t, ht, hid, sub, hrecord, hip⟩

/-- Whoever holds the subnet of a bound address was made for the identity bound. -/
theorem holder_identity (hc : (soundness base).Good c) {id : Identity} (ht : t ∈ c.threads)
    (hheld : t.record.held = some sub)
    (hlookup : c.shared.reg.lookup sub.sandboxIP = some id) : t.job.identity = id := by
  obtain ⟨u, hu, hid, sub', hrecord, hip⟩ := lookup_holder hc hlookup
  obtain ⟨ts, us, hthreads, hsound⟩ := sound_split hc ht
  rw [hthreads] at hu
  have hrecord' : t.record = ⟨some sub, t.record.bound⟩ := by rw [← hheld]
  rw [hrecord'] at hsound
  -- The thread that is bound to the address is the one that holds the subnet.
  have hother : ∀ u ∈ ts ++ us, u.record = ⟨some sub', true⟩ → False := by
    intro u hu hrec
    exact hsound.sandboxIP_ne (Pool.mem_records (c := ⟨c.shared, ts ++ us⟩) hu) (by rw [hrec]) hip
  rcases List.mem_append.mp hu with hu | hu
  · exact (hother u (List.mem_append_left _ hu) hrecord).elim
  · rcases List.mem_cons.mp hu with rfl | hu
    · exact hid
    · exact (hother u (List.mem_append_right _ hu) hrecord).elim

theorem lookup_not_bound (hc : (soundness base).Good c) (ht : t ∈ c.threads)
    (hrecord : t.record = ⟨some sub, false⟩) : c.shared.reg.lookup sub.sandboxIP = none := by
  obtain ⟨ts, us, -, hsound⟩ := sound_split hc ht
  rw [hrecord] at hsound
  exact hsound.lookup_unbound

/-- When every thread has ended, nothing is in use and nothing is bound. -/
theorem empty_of_finished (hc : (soundness base).Good c) (hfin : ∀ t ∈ c.threads, t.Finished) :
    c.shared.alloc.used = ∅ ∧ ∀ ip, c.shared.reg.lookup ip = none := by
  have hinv : Sound base c.shared c.records := hc.inv
  have hnothing : ∀ t ∈ c.threads, t.record = .nothing := by
    intro t ht
    obtain ⟨a, ha⟩ := hfin t ht
    have hconf := hc.conforms t ht
    rw [ha] at hconf
    exact hconf
  constructor
  · refine Finset.eq_empty_of_forall_notMem fun k hk ↦ ?_
    have hk : k ∈ heldIndices c.records := hinv.used ▸ hk
    obtain ⟨x, hx, hsome⟩ := (Multiset.mem_filterMap _ _).mp hk
    obtain ⟨t, ht, rfl⟩ := List.mem_map.mp (Multiset.mem_coe.mp hx)
    rw [hnothing t ht] at hsome
    cases hsome
  · intro ip
    cases hlookup : c.shared.reg.lookup ip with
    | none => rfl
    | some id =>
        obtain ⟨t, ht, -, sub, hrecord, -⟩ := lookup_holder hc hlookup
        rw [hnothing t ht] at hrecord
        cases hrecord

end Pools

/-- In every pool that spawns and cleanups can reach, whatever fails and however they
interleave, when each `Allocate` is called while the address space has a subnet left: no
two of them hold the same index; an address is bound to an identity only if the holder of
its subnet was made for it; a subnet that is held and not bound yet has no binding left
over; and when all have ended, nothing is in use and nothing is bound. -/
theorem source_ip_sound {base : UInt32} {c : Pool spawning Unit SandboxJob Holding Net}
    (hc : (spawns HasSubnet).Reach ⟨.fresh base, []⟩ c) :
    (c.threads.Pairwise fun t u ↦ ∀ sub sub', t.record.held = some sub →
      u.record.held = some sub' → sub.index ≠ sub'.index) ∧
    (∀ ip id, c.shared.reg.lookup ip = some id →
      (∃ t ∈ c.threads, ∃ sub, t.record.held = some sub ∧ sub.sandboxIP = ip) ∧
      ∀ t ∈ c.threads, ∀ sub, t.record.held = some sub → sub.sandboxIP = ip →
        t.job.identity = id) ∧
    (∀ t ∈ c.threads, ∀ sub, t.record = ⟨some sub, false⟩ →
      c.shared.reg.lookup sub.sandboxIP = none) ∧
    ((∀ t ∈ c.threads, t.Finished) →
      c.shared.alloc.used = ∅ ∧ ∀ ip, c.shared.reg.lookup ip = none) := by
  have hgood := soundness_good hc
  refine ⟨indices_pairwise hgood, fun ip id hlookup ↦ ⟨?_, ?_⟩, ?_, empty_of_finished hgood⟩
  · obtain ⟨t, ht, -, sub, hrecord, hip⟩ := lookup_holder hgood hlookup
    exact ⟨t, ht, sub, by rw [hrecord], hip⟩
  · rintro t ht sub hheld rfl
    exact holder_identity hgood ht hheld hlookup
  · exact fun t ht sub hrecord ↦ lookup_not_bound hgood ht hrecord

namespace Example.Spawn

/-- `10.88.0.0`. -/
def base : UInt32 := 0x0A580000

def echo : Store.Server := ⟨1, "echo", "/bin/echo", ""⟩

/-- The subnet the next spawn gets. -/
def nextSubnet (w : Net) : Subnet := subnet w.alloc.base w.alloc.next

/-- The allocator and the registry after a spawn. -/
def afterSpawn (w : Net) (srv : Store.Server) (tenant : String) : Net :=
  ⟨w.alloc.allocate.2, w.reg.bind (nextSubnet w).sandboxIP ⟨srv.name, tenant⟩⟩

/-- A spawn that has succeeded. -/
def upThread (w : Net) (srv : Store.Server) (tenant : String) :
    Thread spawning Unit SandboxJob Holding :=
  ⟨.spawn srv tenant, .ret (.inr (.up srv tenant (nextSubnet w))), ⟨some (nextSubnet w), true⟩⟩

variable {room : Allocator → Prop}

theorem exec_attempt {h : HostStep} {msg : String} {release : Prog spawning Unit} {α : Type}
    {next : Prog spawning (Except Err α)} {x y : Net × Holding} {r : Except Err α}
    (hx : Exec (spawns room).tracked next x r y) :
    Exec (spawns room).tracked (attempt h msg release next) x r y :=
  exec_call.mpr ⟨.ok (), x, ⟨rfl, rfl⟩, hx⟩

/-- A spawn none of whose steps fails. -/
theorem exec_spawn {w : Net} (hroom : room w.alloc) (srv : Store.Server) (tenant : String) :
    Exec (spawns room).tracked (spawnEgressBackend srv tenant) (w, .nothing)
      (.ok (nextSubnet w)) (afterSpawn w srv tenant, ⟨some (nextSubnet w), true⟩) := by
  refine exec_call.mpr ⟨.ok (), (w, .nothing), ⟨rfl, rfl⟩, ?_⟩
  refine exec_call.mpr ⟨.ok (nextSubnet w), ({ w with alloc := w.alloc.allocate.2 }, _),
    ⟨⟨hroom, rfl, rfl⟩, rfl⟩, ?_⟩
  iterate 13 refine exec_attempt ?_
  refine exec_call.mpr ⟨(), (afterSpawn w srv tenant, _), ⟨rfl, rfl⟩, ?_⟩
  refine exec_attempt ?_
  exact exec_call.mpr ⟨.ok (), _, ⟨rfl, rfl⟩, rfl, rfl⟩

/-- A pool after one more spawn. -/
theorem reach_spawn {w : Net} (hroom : room w.alloc) (srv : Store.Server) (tenant : String)
    (ts : List (Thread spawning Unit SandboxJob Holding)) :
    (spawns room).Reach ⟨w, ts⟩ ⟨afterSpawn w srv tenant, ts ++ [upThread w srv tenant]⟩ := by
  refine .head (.start (.spawn srv tenant) ⟨srv, tenant, rfl⟩) ?_
  exact Effect.System.reach_exec (exec_spawn hroom srv tenant) ts [] (.spawn srv tenant)

/-- With no bound on the subnets in use, any number of spawns may be up at once. -/
theorem reach_many (n : ℕ) :
    ∃ w ts, (spawns fun _ ↦ True).Reach ⟨.fresh base, []⟩
        ⟨w, upThread (.fresh base) echo "1" :: ts⟩ ∧ w.alloc = ⟨base, Finset.range (n + 1)⟩ := by
  induction n with
  | zero => exact ⟨_, [], reach_spawn trivial echo "1" [], rfl⟩
  | succ n ih =>
      obtain ⟨w, ts, hreach, hw⟩ := ih
      refine ⟨_, _, hreach.trans (reach_spawn trivial echo "1" _), ?_⟩
      have hnext : w.alloc.next = n + 1 := w.alloc.next_of_range (by rw [hw])
      show (⟨w.alloc.base, insert w.alloc.next w.alloc.used⟩ : Allocator) = _
      rw [hnext, hw, ← Finset.range_add_one]

end Example.Spawn

open Example.Spawn in
/-- A sandbox that is up is known by its address. -/
theorem source_ip_sound_echo :
    ∃ c, (spawns HasSubnet).Reach ⟨.fresh base, []⟩ c ∧
      c.shared.reg.lookup 0x0A580002 = some ⟨"echo", "1"⟩ ∧
      ∀ t ∈ c.threads, ∀ sub, t.record.held = some sub → sub.sandboxIP = 0x0A580002 →
        t.job.identity = ⟨"echo", "1"⟩ := by
  have hroom : HasSubnet (Net.fresh base).alloc := Nat.two_pow_pos 30
  have hc := reach_spawn hroom echo "1" []
  exact ⟨_, hc, rfl, ((source_ip_sound hc).2.1 _ _ rfl).2⟩

open Example.Spawn in
/-- Once there are more subnets in use than the address space has, the address of a
sandbox is bound to another tenant's identity. -/
theorem address_bound_to_other_tenant :
    ∃ c, (spawns fun _ ↦ True).Reach ⟨.fresh base, []⟩ c ∧
      ∃ t ∈ c.threads, t.job.identity = ⟨"echo", "1"⟩ ∧
        ∃ sub, t.record.held = some sub ∧
          c.shared.reg.lookup sub.sandboxIP = some ⟨"echo", "2"⟩ := by
  obtain ⟨w, ts, hreach, hw⟩ := reach_many (subnets - 1)
  have hnext : w.alloc.next = subnets := w.alloc.next_of_range (by rw [hw]; rfl)
  refine ⟨_, hreach.trans (reach_spawn trivial echo "2" _), _, .head _, rfl, _, rfl, ?_⟩
  -- The last subnet's address is the first one's.
  have hip : (nextSubnet w).sandboxIP = (nextSubnet (.fresh base)).sandboxIP := by
    rw [nextSubnet, hnext, hw]
    exact sandboxIP_wraps base
  show (w.reg.bind (nextSubnet w).sandboxIP ⟨"echo", "2"⟩).lookup _ = _
  rw [Registry.lookup_bind, if_pos hip.symm]

end GigMcp.Gateway

import GigMcp.Gateway.Resolver
import Mathlib.Data.Finset.Card
import Mathlib.Data.Finset.Range

/-!
# Source addresses

The allocator of `netmgr/netmgr.go` hands out the /30 networks that sandboxes run
in, and the registry of `proxy/registry.go` says which tenant a source address
belongs to.  An IPv4 address is its 32-bit value; the registry is keyed by it, as
its dotted form determines it.
-/

namespace GigMcp.Netmgr

/-- One /30: the host side and the sandbox side. -/
structure Subnet where
  index : ℕ
  hostIP : UInt32
  sandboxIP : UInt32
  mask : UInt32
  hostVeth : String
  peerVeth : String
deriving DecidableEq

/-- The address `n` after `base`, the sum wrapping as `uint32` does. -/
def offset (base : UInt32) (n : ℕ) : UInt32 := base + UInt32.ofNat n

/-- The `k`-th /30 after `base`. -/
def subnet (base : UInt32) (k : ℕ) : Subnet :=
  ⟨k, offset base (4 * k + 1), offset base (4 * k + 2), 0xFFFFFFFC, "vh" ++ toString k,
    "vs" ++ toString k⟩

/-- Hands out /30s after a base address. -/
structure Allocator where
  base : UInt32
  used : Finset ℕ

/-- The loop of `Allocate`: the first index from `k` on that is not in use. -/
def firstFree (used : Finset ℕ) : ℕ → ℕ → ℕ
  | 0, k => k
  | fuel + 1, k => if k ∈ used then firstFree used fuel (k + 1) else k

namespace Allocator

/-- The index `Allocate` takes.  The loop ends before it has looked at more indices
than are in use. -/
def next (a : Allocator) : ℕ := firstFree a.used a.used.card 0

/-- `Allocate`; it never fails. -/
def allocate (a : Allocator) : Except Err Subnet × Allocator :=
  (.ok (subnet a.base a.next), { a with used := insert a.next a.used })

/-- `Free`. -/
def free (a : Allocator) (s : Subnet) : Allocator := { a with used := a.used.erase s.index }

end Allocator

/-! ## The index that is taken -/

theorem firstFree_spec {used : Finset ℕ} {fuel k : ℕ} (hk : Finset.range k ⊆ used)
    (hfuel : used.card ≤ fuel + k) :
    firstFree used fuel k ∉ used ∧ Finset.range (firstFree used fuel k) ⊆ used := by
  induction fuel generalizing k with
  | zero =>
      -- As many indices as are in use are in use below `k`.
      have hused : Finset.range k = used := by
        refine Finset.eq_of_subset_of_card_le hk ?_
        rw [Finset.card_range]
        omega
      refine ⟨?_, hk⟩
      rw [firstFree, ← hused]
      exact Finset.notMem_range_self
  | succ fuel ih =>
      rw [firstFree]
      split
      · rename_i hmem
        refine ih ?_ (by omega)
        rw [Finset.range_add_one]
        exact Finset.insert_subset hmem hk
      · rename_i hmem
        exact ⟨hmem, hk⟩

namespace Allocator

variable (a : Allocator)

theorem next_notMem : a.next ∉ a.used :=
  (firstFree_spec (by simp) (by omega)).1

/-- No more indices are passed over than are in use. -/
theorem next_le_card : a.next ≤ a.used.card := by
  have h : Finset.range a.next ⊆ a.used := (firstFree_spec (by simp) (by omega)).2
  simpa using Finset.card_le_card h

theorem next_of_range {n : ℕ} (h : a.used = Finset.range n) : a.next = n := by
  have hle := a.next_le_card
  have hmem := a.next_notMem
  rw [h, Finset.card_range] at hle
  rw [h, Finset.mem_range] at hmem
  omega

end Allocator

/-! ## Distinct addresses -/

/-- The number of /30s in the address space. -/
def subnets : ℕ := 2 ^ 30

/-- The sandbox addresses of different indices differ, within the address space. -/
theorem sandboxIP_inj {base : UInt32} {k k' : ℕ} (hk : k < subnets) (hk' : k' < subnets)
    (h : (subnet base k).sandboxIP = (subnet base k').sandboxIP) : k = k' := by
  have hofNat : UInt32.ofNat (4 * k + 2) = UInt32.ofNat (4 * k' + 2) := by
    simpa [subnet, offset] using h
  have hmod := congrArg UInt32.toNat hofNat
  simp only [UInt32.toNat_ofNat'] at hmod
  simp only [subnets] at hk hk'
  omega

/-- Beyond it they repeat. -/
theorem sandboxIP_wraps (base : UInt32) :
    (subnet base subnets).sandboxIP = (subnet base 0).sandboxIP := rfl

end GigMcp.Netmgr

namespace GigMcp.Proxy

open GigMcp.Data GigMcp.Gateway

/-- `proxy.Registry`: which tenant a source address belongs to. -/
structure Registry where
  m : Table (Prod.fst : UInt32 × Identity → UInt32)

namespace Registry

def fresh : Registry := ⟨.empty⟩

/-- `Bind`. -/
def bind (r : Registry) (ip : UInt32) (id : Identity) : Registry :=
  ⟨r.m.upsert (ip, id) (fun s ↦ (s.1, id)) fun _ ↦ rfl⟩

/-- `Unbind`. -/
def unbind (r : Registry) (ip : UInt32) : Registry := ⟨r.m.deleteWhere (·.1 = ip)⟩

/-- `Lookup`. -/
def lookup (r : Registry) (ip : UInt32) : Option Identity := (r.m.get? ip).map Prod.snd

theorem lookup_eq_some {r : Registry} {ip : UInt32} {id : Identity} :
    r.lookup ip = some id ↔ (ip, id) ∈ r.m.rows := by
  rw [lookup, Option.map_eq_some_iff]
  constructor
  · rintro ⟨⟨ip', id'⟩, hget, rfl⟩
    obtain rfl : ip' = ip := Table.key_of_get? hget
    exact Table.mem_of_get? hget
  · exact fun h ↦ ⟨(ip, id), Table.get?_of_mem h, rfl⟩

@[simp] theorem lookup_bind (r : Registry) (ip ip' : UInt32) (id : Identity) :
    (r.bind ip id).lookup ip' = if ip' = ip then some id else r.lookup ip' := by
  rw [lookup, bind, Table.get?_upsert]
  split
  · cases r.m.get? ip with
    | none => rfl
    | some s => rfl
  · rfl

end Registry

end GigMcp.Proxy
